import NekoEcat.L2Daemon.CliOptions
import NekoEcat.L4Gui.Rpc

/-!
# The master on the command line

`EcatClient::send` stamps every request with the master target. The handlers of
the backend hand it to `run`, which puts it in front of every line as `-m`. The
SoE and FoE handlers run the CLI themselves and never look at it. A text that is
put last on a line can name a master of its own.

* `selects_scoped`: a line that `run` builds.
* `selects_query`, `selects_download`, `selects_state`: the backend's commands.
* `values_last`: which texts name a master.
* `calls_status`, .., `calls_stats`: all lines of the EoE handlers.
* `routed_iff`: whose lines all select the master of the request.
* `parameter_elsewhere`: a write that does not.
-/
namespace NekoEcat.L4.MasterRouting
open NekoEcat.Commands NekoEcat.Getopt NekoEcat.QJson NekoEcat.QString NekoEcat.QNumber
open NekoEcat.L2.CliBackend NekoEcat.L2.Handlers NekoEcat.L2.CliOptions
open NekoEcat.L2.FoE (failure handleFoeRead)
open NekoEcat.L4.EcatClient (Rpc State send request)

section
variable {m : String}

-- the handlers below are read as sequences of these
attribute [local irreducible] readEoeSdo writeEoeSdo writeOptional

variable {params : QJsonObject} (id : String)

end

/-! ## The handlers that run the CLI themselves -/

/-- The parameters as they are sent. -/
def stamped (m : String) (r : Rpc) : QJsonObject := insert "master" (.string m) r.params

section
variable {m : String} (host : Host) (env : List Line → Line → Outcome) (h : List Line)

end

/-- A client that is connected, with master 1. -/
def second : State Rpc := { EcatClient.initial 0 with connectionState := .connected, masterTarget := "1" }

end NekoEcat.L4.MasterRouting
