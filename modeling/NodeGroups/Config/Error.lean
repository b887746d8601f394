import NodeGroups.Duration
import NodeGroups.Spec
import NodeGroups.Text.Quoted

/-! What can be wrong with a configuration. -/
namespace NodeGroups.Config

inductive Error where
  /-- The file cannot be read; `cause` is the system's text. -/
  | read (path cause : String)
  | parse
  | invalidDuration (text : String)
  | zeroDuration (field : String)
  | invalidSpec (text : String) (fault : Spec.Fault)
  | duplicateGroup (id : String)
  deriving DecidableEq, Repr

/-- The details of a parse error are not given. -/
def Error.message : Error → String
  | read path cause => "failed to read config file " ++ path ++ ": " ++ cause
  | parse => "failed to parse config: "
  | invalidDuration text => "invalid duration: " ++ text
  | zeroDuration field => field ++ " must be greater than zero"
  | invalidSpec text fault => "invalid node group spec " ++ Text.quoted text ++ ": " ++ fault.reason
  | duplicateGroup id => "duplicate node group: " ++ id

def duration (s : String) : Except Error Duration :=
  (Duration.parse? s).elim (.error (.invalidDuration (Text.trim s))) .ok

def spec (s : String) : Except Error Spec := (Spec.parse s).mapError (.invalidSpec s)

end NodeGroups.Config
