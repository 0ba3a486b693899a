import Mnema.Models
import Mnema.Appliance
import Mnema.Lib.PythonText
import Mnema.Lib.Store

/-! The configuration files of an appliance, and how they are read and written. -/

namespace Mnema.Appliance

open Effect PyText

/-- The files, whether the service runs and the timer of the import is enabled, and what `load_config`
says of the bytes of `config.yaml`. -/
structure Machine where
  files : Store Path Bytes
  active : Bool
  timer : Bool
  loads : Bytes → Except PyError Unit

def configPath : Path := ["etc", "mnema", "config.yaml"]

def secretsPath : Path := ["etc", "mnema", "secrets"]

def sessionPath : Path := ["etc", "mnema", "icloud-session"]

def environmentPath : Path := ["opt", "mnema", ".env"]

def databasePath : Path := ["var", "lib", "mnema", "mnema.db"]

instance : HasService Machine where
  running s := s.active
  withRunning s active := { s with active := active }
  config s := (s.files configPath).map s.loads

def Machine.withFiles (s : Machine) (files : Store Path Bytes) : Machine := { s with files := files }

/-- `str.encode`. -/
def encode (text : String) : Bytes := utf8Encode text.toList

/-- `bytes.decode`. -/
def decode (content : Bytes) : Except PyError String :=
  match utf8Decode content with
  | some text => .ok (String.ofList text)
  | none => .error (.value "invalid start byte")

/-- `atomic_write` and `atomic_copy`. -/
def atomicWrite (faults : Faults) (path : Path) (content : Bytes) : Effect Machine PyError Unit := do
  attempt (faults (.write path))
  modify fun s => s.withFiles (s.files.put path content)
  attempt (faults (.sync path))

theorem encode_of_decode {content : Bytes} {text : String} (h : decode content = .ok text) : encode text = content := by
  unfold decode at h
  cases hdecoded : utf8Decode content with
  | none =>
    rw [hdecoded] at h
    cases h
  | some chars =>
    rw [hdecoded] at h
    obtain rfl := Except.ok.inj h
    rw [encode, String.toList_ofList]
    exact utf8Encode_of_utf8Decode hdecoded

theorem decode_encode (text : String) : decode (encode text) = .ok text := by
  rw [decode, encode, utf8Decode_utf8Encode]
  exact congrArg Except.ok String.ofList_toList

end Mnema.Appliance
