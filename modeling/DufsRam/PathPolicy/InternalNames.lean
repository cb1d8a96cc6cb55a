import DufsRam.Lib.Text

/-!
# Internal names

The names under which the server keeps its own entries beside those of the users
(`internal_names.rs`). A name is the list of its bytes.
-/

namespace DufsRam.PathPolicy

open Text

/-- `InternalEntryName` (lines 62-68). -/
inductive InternalEntryName where
  | stageDirectory
  | readiness
  | deleteTrash
  | quarantine
deriving DecidableEq

/-- A digit of a UUID as `hyphenated` prints it. -/
def isLowerHex (byte : UInt8) : Bool :=
  decide (48 ≤ byte ∧ byte ≤ 57) || decide (97 ≤ byte ∧ byte ≤ 102)

/-- `is_canonical_uuid` (lines 133-135): the texts that `Uuid::parse_str` reads and `hyphenated`
    prints again, 36 bytes with a hyphen (45) at four places. -/
def isCanonicalUuid (value : List UInt8) : Bool :=
  decide (value.length = 36) &&
    value.zipIdx.all fun (byte, i) => if i ∈ [8, 13, 18, 23] then byte = 45 else isLowerHex byte

/-- A canonical UUID between two texts. -/
def isTagged (before after : String) (fileName : List UInt8) : Bool :=
  ((fileName.dropPrefix? (ascii before)).bind fun value => value.dropSuffix? (ascii after)).any
    isCanonicalUuid

/-- `is_readiness_name` (lines 112-117). -/
def isReadinessName : List UInt8 → Bool := isTagged ".xczs-readiness-" ".probe"

/-- `is_delete_trash_name` (lines 119-124). -/
def isDeleteTrashName : List UInt8 → Bool := isTagged ".xczs-upload-delete-" ".trash"

/-- `is_quarantine_name` (lines 126-131). -/
def isQuarantineName : List UInt8 → Bool := isTagged ".xczs-quarantine-" ".hold"

/-- `classify_internal_name` (lines 74-91). -/
def classifyInternalName (fileName : List UInt8) : Option InternalEntryName :=
  if fileName = ascii ".xczs-upload-stages" then some .stageDirectory
  else if fileName = ascii ".xczs-readiness.probe" then some .readiness
  else if isQuarantineName fileName then some .quarantine
  else if isDeleteTrashName fileName then some .deleteTrash
  else if isReadinessName fileName then some .readiness
  else none

/-- `is_internal_name` (lines 70-72). -/
def isInternalName (fileName : List UInt8) : Bool := (classifyInternalName fileName).isSome

example : isInternalName (ascii ".xczs-quarantine-01234567-89ab-cdef-0123-456789abcdef.hold") =
    true := by decide +kernel

end DufsRam.PathPolicy
