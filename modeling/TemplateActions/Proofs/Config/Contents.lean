import TemplateActions.Config.Load

/-!
Settings from a file that is there: only what the file holds counts then.
-/
namespace TemplateActions.Config

def fileFor (directory : Directory) (root : FileName) (named : Option FileName) : FileName :=
  directory.resolve (named.getD (root.child fileName))

/-- Holds if the file can be looked up and is there with those bytes. -/
structure Contains (directory : Directory) (root : FileName) (named : Option FileName)
    (bytes : List UInt8) : Prop where
  zeroFree : (named.getD root).hasZero = false
  short : directory.isOverlong (fileFor directory root named) = false
  present : directory.bytes? (fileFor directory root named) = some bytes

def Holds (directory : Directory) (root : FileName) (named : Option FileName)
    (data : Value) : Prop :=
  ∃ bytes text, Contains directory root named bytes ∧ Utf8.decode bytes = .ok text ∧
    Yaml.read (Lines.normalize text) = .ok data

variable {directory : Directory} {root : FileName} {named : Option FileName}

theorem Contains.load_eq {bytes : List UInt8} (contains : Contains directory root named bytes) :
    load directory root named =
      match Utf8.decode bytes with
      | .ok text => ofText (fileFor directory root named) (Lines.normalize text)
      | .error cause =>
        (.error (.defect (fileFor directory root named) (.unreadable cause)), []) := by
  have present := contains.present
  have short := contains.short
  rw [fileFor] at present short
  rw [load, contains.zeroFree, fileFor]
  simp only [Bool.false_eq_true, if_false, short, Directory.text?, present, Option.map_some]
  cases Utf8.decode bytes <;> rfl

theorem Holds.load_eq {data : Value} (holds : Holds directory root named data) :
    (load directory root named).1 =
      match ofValue data with
      | .ok config => .ok config
      | .error cause => .error (.defect (fileFor directory root named) cause) := by
  obtain ⟨bytes, text, contains, decoded, isData⟩ := holds
  rw [contains.load_eq, decoded]
  simp only [ofText, isData]
  cases ofValue data <;> rfl

theorem Holds.load_eq_ok_iff {data : Value} {config : Config}
    (holds : Holds directory root named data) :
    (load directory root named).1 = .ok config ↔ ofValue data = .ok config := by
  rw [holds.load_eq]
  cases ofValue data <;> simp

theorem Holds.load_eq_error_iff {data : Value} {failure : ConfigFailure}
    (holds : Holds directory root named data) :
    (load directory root named).1 = .error failure ↔
      ∃ cause, ofValue data = .error cause ∧
        failure = .defect (fileFor directory root named) cause := by
  rw [holds.load_eq]
  cases ofValue data <;> simp [eq_comm]

def holding (text : String) : Directory :=
  (Directory.mk (.ofText "/work") []).addFile (.ofText fileName)
    (text.toList.map fun c => c.toNat.toUInt8)

end TemplateActions.Config
