import Ilxd.Types
import Ilxd.ChainService
import Ilxd.Prog
import Ilxd.Server
import Ilxd.Locks
import Ilxd.Peers
import Ilxd.RoundTrip
import Ilxd.World
import Ilxd.Inflight
import Ilxd.Pipeline
import Ilxd.Solo
import Ilxd.Orphans
import Ilxd.Lurk.Parser
import Ilxd.Lurk.Files
import Ilxd.Lurk.Import
import Ilxd.Lurk.Expansion
import Ilxd.Lurk.Param
import Ilxd.Lurk.Value
import Ilxd.Lurk.Multisig
import Ilxd.Lurk.StakeValidation
import Ilxd.Lurk.Termination
import Ilxd.Lurk.Accessor
import Ilxd.Lurk.ParamMeaning
import Ilxd.Lurk.Comments
import Ilxd.Lurk.ListMacro
import Ilxd.Finality
