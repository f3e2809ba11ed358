import StackMachine.Text.Quoted

/-!
What a session finds around it: files, settings, input and the time.
-/

set_option autoImplicit false

namespace StackMachine.CommandLine

/-- Why the system refused to read or write a file. -/
structure FileFault where
  code : Nat
  kind : String
  message : String
  deriving DecidableEq, Repr

namespace FileFault

def notFound : FileFault := ⟨2, "NotFound", "No such file or directory"⟩
def permissionDenied : FileFault := ⟨13, "PermissionDenied", "Permission denied"⟩
def notADirectory : FileFault := ⟨20, "NotADirectory", "Not a directory"⟩
def isADirectory : FileFault := ⟨21, "IsADirectory", "Is a directory"⟩
def nameTooLong : FileFault := ⟨36, "InvalidFilename", "File name too long"⟩

def detail (e : FileFault) : String :=
  "Os \x7b code: " ++ e.code.repr ++ ", kind: " ++ e.kind ++ ", message: " ++ Text.quoted e.message ++
    " \x7d"

end FileFault

structure Surroundings where
  contents : String → Except FileFault (Array UInt8)
  /-- Why a file cannot be written. -/
  writeFault? : String → Option FileFault
  setting? : String → Option String
  input : String
  /-- The time shown on log lines. -/
  time : String

def Surroundings.isOn (s : Surroundings) (key : String) : Bool := (s.setting? key).any (· ≠ "0")

end StackMachine.CommandLine
