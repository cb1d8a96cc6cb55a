import DufsRam.Lib.Interference
import DufsRam.RootedFs.Publish

/-!
# Publishing and relocating against other writers

The calls of `rename_replace_if_unchanged` (`rooted_fs.rs`, lines 1832-1951),
`rename_if_unchanged` (lines 1691-1825) and `rename_missing_and_verify` (lines 3054-3113),
one after the other, while others change names and files between them. Every call may fail.

The parents are open, so a name stands for an entry of a fixed directory, and an open file
keeps its inode. A rename moves any entry here, directories too; that a directory is not
moved into itself is one of the failures.

Results:
* `publish_run`: without other writers this is the publication of `RootedFs.Publish`.
* `exec_keeps`: a rename with `NOREPLACE` leaves an occupied destination alone.
* `missing_destination_kept`: a destination that is expected to be missing is not replaced,
  and success is answered only for the object that was pinned.
-/

namespace DufsRam.RootedFs

/-! ## Calls -/

/-- The system calls. `statRenamed` is the one after the rename. -/
inductive Call where
  | dup
  | openSourceParent
  | openDestinationParent
  | sameParent
  | fstat (opened : FileIdentity)
  | statat (name : EntryName)
  | openPath (name : EntryName)
  | rename (noreplace : Bool) (source destination : EntryName)
  | statRenamed (name : EntryName)
  | syncParents
deriving DecidableEq

def Call.Answer : Call → Type
  | .fstat _ | .statat _ | .statRenamed _ => Except Errno ExistingReplacementTarget
  | .openPath _ => Except Errno FileIdentity
  | .dup | .openSourceParent | .openDestinationParent | .sameParent | .rename _ _ _
  | .syncParents => Except Errno Unit

/-- `ENOTDIR`. -/
def Errno.notdir : Errno := .other 20

/-- `ENOTEMPTY`. -/
def Errno.notempty : Errno := .other 39

/-- A rename of any entry: a directory replaces only an empty directory. -/
def Volume.renamedEntry (v : Volume) (noreplace : Bool) (source destination : EntryName) :
    Except Errno Volume :=
  match v.names.get source with
  | none => .error .noent
  | some i =>
    let moved := { v with names := (v.names.erase source).put destination i }
    match v.names.get destination with
    | none => .ok moved
    | some j =>
      if noreplace then .error .exist
      else if j = i then .ok v
      else if (v.attributes i).fileType = .directory then
        if (v.attributes j).fileType ≠ .directory then .error .notdir
        else if v.names.countWhere (fun name _ => decide (name.1 = j)) = 0 then .ok moved
        else .error .notempty
      else if (v.attributes j).fileType = .directory then .error .isdir
      else .ok moved

/-- What can go wrong: any call, and the rename in its own way. -/
structure CallFaults where
  error : ℕ → Option Errno
  rename : Option RenameFault

/-- `renameat` and `renameat_with` of any entry. -/
def Volume.renameatEntry (v : Volume) (fault : Option RenameFault) (noreplace : Bool)
    (source destination : EntryName) : Except Errno Unit × Volume :=
  match fault, v.renamedEntry noreplace source destination with
  | some (.fails e), _ => (.error e, v)
  | _, .error e => (.error e, v)
  | some (.lost e), .ok v' => (.error e, v')
  | none, .ok v' => (.ok (), v')

/-- What the `n`-th call does. -/
def Call.exec (f : CallFaults) (n : ℕ) : (c : Call) → Volume → c.Answer × Volume
  | .dup, v | .openSourceParent, v | .openDestinationParent, v | .sameParent, v
  | .syncParents, v => (withFault (f.error n) (.ok ()), v)
  | .fstat opened, v => (withFault (f.error n) (.ok (v.replacementTargetIdentity opened)), v)
  | .statat name, v | .statRenamed name, v => (withFault (f.error n) (v.statat name), v)
  | .openPath name, v =>
    (withFault (f.error n) (match v.names.get name with
      | some i => .ok i
      | none => .error .noent), v)
  | .rename noreplace source destination, v =>
    v.renameatEntry f.rename noreplace source destination

abbrev Calls := Prog Call Call.Answer

/-! ## The functions -/

/-- `CheckedMissingRename`. -/
inductive CheckedMissingRename where
  | renamed
  | destinationExists
  | publishedIdentityUnknown
deriving DecidableEq

/-- `rename_missing_and_verify` (lines 3054-3113). -/
def renameMissingAndVerify (source : EntryName) (anchor : FileIdentity) (destination : EntryName) :
    Calls (Except Errno CheckedMissingRename) :=
  .call (.rename true source destination) fun
  | .error .exist => .done (.ok .destinationExists)
  | .error e => .done (.error e)
  | .ok () => .call (.fstat anchor) fun
    | .error _ => .done (.ok .publishedIdentityUnknown)
    | .ok anchoredSource => .call (.statRenamed destination) fun
      | .error _ => .done (.ok .publishedIdentityUnknown)
      | .ok namedDestination =>
        if anchoredSource ≠ namedDestination then .done (.ok .publishedIdentityUnknown)
        else .done (.ok .renamed)

/-- The end of a publication whose rename was made (lines 1941-1944). -/
def syncPublished : Calls ReplaceOutcome :=
  .call .syncParents fun
  | .error _ => .done .publishedDurabilityUnknown
  | .ok () => .done .published

/-- The rename of a publication (lines 1885-1921). -/
def publishRename (r : ReplaceRequest) (current : Option ExistingReplacementTarget) :
    Calls ReplaceOutcome :=
  match r.expected with
  | .missing =>
    if current.isSome then .done .rejected
    else (renameMissingAndVerify r.source r.opened r.destination).bind fun
      | .error e => .done (.notPublished e)
      | .ok .destinationExists => .done .rejected
      | .ok .publishedIdentityUnknown =>
        .call .syncParents fun _ => .done .publishedDurabilityUnknown
      | .ok .renamed => syncPublished
  | .existing expected =>
    if current ≠ some expected then .done .rejected
    else .call (.rename false r.source r.destination) fun
      | .error e => .done (.notPublished e)
      | .ok () => syncPublished

/-- The look at the destination (lines 1876-1884) and what follows it. -/
def publishDestination (r : ReplaceRequest) : Calls ReplaceOutcome :=
  .call (.statat r.destination) fun
  | .ok stat => publishRename r (some stat)
  | .error .noent => publishRename r none
  | .error e => .done (.notPublished e)

/-- The blocking closure of `rename_replace_if_unchanged` (lines 1849-1945). -/
def publishBlocking (r : ReplaceRequest) : Calls ReplaceOutcome :=
  .call .openSourceParent fun
  | .error e => .done (.notPublished e)
  | .ok () => .call .openDestinationParent fun
    | .error e => .done (.notPublished e)
    | .ok () => .call .sameParent fun
      | .error e => .done (.notPublished e)
      | .ok () => .call (.fstat r.opened) fun
        | .error e => .done (.notPublished e)
        | .ok openedSource => .call (.statat r.source) fun
          | .error .noent => .done .rejected
          | .error e => .done (.notPublished e)
          | .ok namedSource =>
            if openedSource ≠ namedSource ∨ openedSource.attributes.fileType ≠ .regularFile ∨
                openedSource.links ≠ 1 then .done .rejected
            else publishDestination r

/-- `rename_replace_if_unchanged` (lines 1832-1951). -/
def publish (r : ReplaceRequest) (gate : Option GateFault) : Calls ReplaceOutcome :=
  .call .dup fun
  | .error e => .done (.notPublished e)
  | .ok () =>
    match gate with
    | some .closed => .done .publishedDurabilityUnknown
    | some .joinError => (publishBlocking r).bind fun _ => .done .publishedDurabilityUnknown
    | none => publishBlocking r

/-- `CheckedRelocationOutcome`. -/
inductive CheckedRelocationOutcome where
  | relocated
  | sameFile
  | sourceChanged
  | destinationChanged
  | destinationExists
deriving DecidableEq

/-- The arguments of `rename_if_unchanged`. -/
structure RelocateRequest where
  source : EntryName
  destination : EntryName
  expectedSource : ReplacementTargetIdentity
  expectedDestination : Option ReplacementTargetIdentity

/-- An answer for a name that is not there, and the error otherwise. -/
def missingOr (e : Errno) (outcome : CheckedRelocationOutcome) :
    Except Errno CheckedRelocationOutcome :=
  if e = .noent ∨ e = .notdir then .ok outcome else .error e

/-- The end of a relocation whose rename was made (lines 1821-1822). -/
def syncRelocated : Calls (Except Errno CheckedRelocationOutcome) :=
  .call .syncParents fun
  | .error e => .done (.error e)
  | .ok () => .done (.ok .relocated)

/-- The answer for a destination that is there (lines 1773-1777 and 1809-1813). -/
def RelocateRequest.occupied (r : RelocateRequest) : CheckedRelocationOutcome :=
  if r.expectedDestination.isSome then .destinationChanged else .destinationExists

/-- The rename onto a missing destination (lines 1770-1820). -/
def relocateMissing (r : RelocateRequest) (current : ReplacementTargetIdentity) :
    Calls (Except Errno CheckedRelocationOutcome) :=
  if current ≠ .missing then .done (.ok r.occupied)
  else .call (.openPath r.source) fun
    | .error e => .done (missingOr e .sourceChanged)
    | .ok anchor => .call (.fstat anchor) fun
      | .error e => .done (.error e)
      | .ok anchoredSource =>
        if .existing anchoredSource ≠ r.expectedSource then .done (.ok .sourceChanged)
        else (renameMissingAndVerify r.source anchor r.destination).bind fun
          | .error e => .done (.error e)
          | .ok .destinationExists => .done (.ok r.occupied)
          -- The error is one the code makes itself.
          | .ok .publishedIdentityUnknown =>
            .call .syncParents fun _ => .done (.error (.other 0))
          | .ok .renamed => syncRelocated

/-- The rename of a relocation (lines 1756-1820). -/
def relocateRename (r : RelocateRequest) (source : ExistingReplacementTarget)
    (current : ReplacementTargetIdentity) : Calls (Except Errno CheckedRelocationOutcome) :=
  match r.expectedDestination with
  | some (.existing expected) =>
    if current ≠ .existing expected then .done (.ok .destinationChanged)
    else if source.identity = expected.identity then .done (.ok .sameFile)
    else .call (.rename false r.source r.destination) fun
      | .error e => .done (.error e)
      | .ok () => syncRelocated
  | some .missing | none => relocateMissing r current

/-- `rename_if_unchanged` (lines 1691-1825): the closure it runs. A closure that is not run,
    or whose result is lost, is an error for the caller. -/
def relocate (r : RelocateRequest) : Calls (Except Errno CheckedRelocationOutcome) :=
  .call .openSourceParent fun
  | .error e => .done (missingOr e .sourceChanged)
  | .ok () => .call .openDestinationParent fun
    | .error e => .done (missingOr e .destinationChanged)
    | .ok () => .call .sameParent fun
      | .error e => .done (.error e)
      | .ok () => .call (.statat r.source) fun
        | .error e => .done (missingOr e .sourceChanged)
        | .ok source =>
          if .existing source ≠ r.expectedSource then .done (.ok .sourceChanged)
          else .call (.statat r.destination) fun
            | .ok stat => relocateRename r source (.existing stat)
            | .error e =>
              if e = .noent ∨ e = .notdir then relocateRename r source .missing
              else .done (.error e)

/-! ## Without other writers -/

/-- The faults of a publication, by the number of the call. -/
def Faults.calls (f : Faults) (noreplace : Bool) : CallFaults where
  rename := f.rename
  error
    | 0 => f.dup
    | 1 => f.openSource
    | 2 => f.openDestination
    | 3 => f.sameParent
    | 4 => f.fstatSource
    | 5 => f.statSource
    | 6 => f.statDestination
    | 8 => if noreplace then f.fstatAnchor else f.syncParents
    | 9 => f.statPublished
    | 10 => f.syncParents
    | _ => none

/-- The answer and the volume after a run that nobody disturbs. -/
def runAlone {α : Type} (f : CallFaults) (n : ℕ) (prog : Calls α) (v : Volume) : α × Volume :=
  let out := Prog.run (Call.exec f) (fun _ v => v) n prog v
  (out.answer, out.state)

@[simp] theorem runAlone_done {α : Type} (f : CallFaults) (n : ℕ) (a : α) (v : Volume) :
    runAlone f n (.done a) v = (a, v) := rfl

theorem runAlone_call {α : Type} (f : CallFaults) (n : ℕ) (c : Call) (next : c.Answer → Calls α)
    (v : Volume) : runAlone f n (.call c next) v =
      runAlone f (n + 1) (next (c.exec f n v).1) (c.exec f n v).2 := rfl

theorem runAlone_bind_done {α β : Type} (f : CallFaults) (n : ℕ) (prog : Calls α) (b : β)
    (v : Volume) : runAlone f n (prog.bind fun _ => .done b) v = (b, (runAlone f n prog v).2) := by
  simp [runAlone, Prog.run_bind]

variable {v : Volume} {r : ReplaceRequest}

/-- What is not a directory is renamed as in `Volume.renamed`. -/
theorem renameatEntry_eq {i : FileIdentity} {s : EntryName} (hi : v.names.get s = some i)
    (hf : (v.attributes i).fileType ≠ .directory) (flt : Option RenameFault) (noreplace : Bool)
    (destination : EntryName) :
    v.renameatEntry flt noreplace s destination =
      v.renameat flt noreplace s destination := by
  have hr : v.renamedEntry noreplace s destination = v.renamed noreplace s destination := by
    cases hd : v.names.get destination with
    | none => simp only [Volume.renamedEntry, Volume.renamed, hi, hd]
    | some j => simp only [Volume.renamedEntry, Volume.renamed, hi, hd, if_neg hf]
  rcases flt with _ | (_ | _) <;> cases hv : v.renamed noreplace s destination <;>
    simp only [Volume.renameatEntry, Volume.renameat, hr, hv]

/-- What is left of a publication when the rename has been made. -/
theorem syncPublished_run (f : CallFaults) (n : ℕ) (v : Volume) : runAlone f n syncPublished v =
      (if (f.error n).isSome then .publishedDurabilityUnknown else .published, v) := by
  rw [syncPublished, runAlone_call]
  cases h : f.error n with
  | none | some => simp [Call.exec, h, withFault]

theorem renameMissing_run {f : Faults} (h : StageIntact v r) (he : r.expected = .missing) :
    runAlone (f.calls true) 7 (publishRename r none) v = renameAndSync v f r true := by
  have hf : (v.attributes r.opened).fileType ≠ .directory := by rw [h.2.1]; decide
  have ha : (f.calls true).error 8 = f.fstatAnchor := rfl
  have hst : (f.calls true).error 9 = f.statPublished := rfl
  have hsy : (f.calls true).error 10 = f.syncParents := rfl
  have hr : (f.calls true).rename = f.rename := rfl
  simp only [publishRename, he, renameMissingAndVerify, Option.isSome_none,
    Bool.false_eq_true, if_false, Prog.bind, runAlone_call, Call.exec, renameatEntry_eq h.1 hf,
    renameAndSync, hr]
  rcases v.renameat f.rename true r.source r.destination with ⟨e | _, v'⟩
  · cases e <;> simp [Prog.bind]
  simp only [Prog.bind, runAlone_call, Call.exec, verified, Nat.reduceAdd, ha, true_and]
  cases f.fstatAnchor with
  | some e => simp [withFault, Prog.bind, runAlone_call]; rfl
  | none =>
  simp only [withFault, Prog.bind, runAlone_call, Call.exec, hst, Nat.reduceAdd]
  cases f.statPublished with
  | some e => simp [Prog.bind, runAlone_call]; rfl
  | none =>
  cases v'.statat r.destination with
  | error e => simp [Prog.bind, runAlone_call]; rfl
  | ok named =>
    by_cases hs : v'.replacementTargetIdentity r.opened = named
    · simp [Prog.bind, hs, syncPublished_run, hsy]
      split_ifs <;> rfl
    · simp [Prog.bind, runAlone_call, hs]
      rfl

theorem renameExisting_run {f : Faults} {want : ExistingReplacementTarget} (h : StageIntact v r)
    (he : r.expected = .existing want) :
    runAlone (f.calls false) 7 (publishRename r (some want)) v = renameAndSync v f r false := by
  have hf : (v.attributes r.opened).fileType ≠ .directory := by rw [h.2.1]; decide
  have hs : (f.calls false).error 8 = f.syncParents := rfl
  have hr : (f.calls false).rename = f.rename := rfl
  simp only [publishRename, he, ne_eq, not_true, if_false, runAlone_call, Call.exec,
    renameatEntry_eq h.1 hf, renameAndSync, hr]
  rcases v.renameat f.rename false r.source r.destination with ⟨e | _, v'⟩
  · simp
  · simp only [syncPublished_run, hs, Nat.reduceAdd]
    split_ifs <;> simp_all

/-- The look at the destination and what follows it. -/
theorem publishDestination_run (f : Faults) (h : StageIntact v r) :
    runAlone (f.calls r.noreplace) 6 (publishDestination r) v =
      match checkDestination v f r with
      | .error e => (.notPublished e, v)
      | .ok none => (.rejected, v)
      | .ok (some noreplace) => renameAndSync v f r noreplace := by
  have hst : (f.calls r.noreplace).error 6 = f.statDestination := rfl
  simp only [publishDestination, checkDestination, runAlone_call, Call.exec, hst]
  cases he : r.expected with
  | missing =>
    have hnr : r.noreplace = true := by simp [ReplaceRequest.noreplace, he]
    rw [hnr]
    rcases withFault f.statDestination (v.statat r.destination) with (_ | _ | _ | _) | stat
    · exact renameMissing_run h he
    · rfl
    · rfl
    · rfl
    · simp [publishRename, he, Except.map]
  | existing want =>
    have hnr : r.noreplace = false := by simp [ReplaceRequest.noreplace, he]
    rw [hnr]
    rcases withFault f.statDestination (v.statat r.destination) with (_ | _ | _ | _) | stat
    · simp [publishRename, he, Except.map]
    · rfl
    · rfl
    · rfl
    · by_cases hs : stat = want
      · subst hs
        simpa [Except.map] using renameExisting_run h he
      · simp [publishRename, he, Except.map, hs]

theorem publishBlocking_run (v : Volume) (f : Faults) (r : ReplaceRequest) :
    runAlone (f.calls r.noreplace) 1 (publishBlocking r) v = replaceBlocking v f r := by
  have h1 : (f.calls r.noreplace).error 1 = f.openSource := rfl
  have h2 : (f.calls r.noreplace).error 2 = f.openDestination := rfl
  have h3 : (f.calls r.noreplace).error 3 = f.sameParent := rfl
  have h4 : (f.calls r.noreplace).error 4 = f.fstatSource := rfl
  have h5 : (f.calls r.noreplace).error 5 = f.statSource := rfl
  simp only [publishBlocking, replaceBlocking, checkReplace, runAlone_call, Call.exec, h1]
  cases f.openSource with
  | some e => rfl
  | none =>
  simp only [withFault, runAlone_call, Call.exec, Nat.reduceAdd, h2, bind, Except.bind]
  cases f.openDestination with
  | some e => rfl
  | none =>
  simp only [runAlone_call, Call.exec, Nat.reduceAdd, withFault, h3]
  cases f.sameParent with
  | some e => rfl
  | none =>
  simp only [runAlone_call, Call.exec, Nat.reduceAdd, withFault, h4]
  cases f.fstatSource with
  | some e => rfl
  | none =>
  simp only [runAlone_call, Call.exec, Nat.reduceAdd, withFault, h5]
  cases f.statSource with
  | some e => cases e <;> rfl
  | none =>
  simp only [Volume.statat]
  cases hi : v.names.get r.source with
  | none => rfl
  | some i =>
  simp only
  split_ifs with hs
  · rfl
  · exact publishDestination_run f ((stage_checks_iff hi).mp hs)

/-- Without other writers the calls are the publication of `renameReplaceIfUnchanged`. -/
theorem publish_run (v : Volume) (f : Faults) (r : ReplaceRequest) :
    runAlone (f.calls r.noreplace) 0 (publish r f.gate) v = renameReplaceIfUnchanged v f r := by
  have hd : (f.calls r.noreplace).error 0 = f.dup := rfl
  simp only [publish, renameReplaceIfUnchanged, runAlone_call, Call.exec, hd]
  cases f.dup with
  | some e => rfl
  | none =>
  rcases f.gate with _ | (_ | _)
  · exact publishBlocking_run v f r
  · rfl
  · simp [withFault, runAlone_bind_done, publishBlocking_run]

/-! ## The destination -/

/-- What is at the name stays there. -/
def Spares (name : EntryName) (v v' : Volume) : Prop :=
  ∀ i, v.names.get name = some i → v'.names.get name = some i

/-- The only renames are those onto `destination` with `NOREPLACE`. -/
def Call.Sparing (destination : EntryName) : Call → Prop
  | .rename noreplace _ name => noreplace = true ∧ name = destination
  | _ => True

/-- With `NOREPLACE` a rename leaves an occupied destination alone. -/
theorem renamedEntry_occupied {v' : Volume} {s dest : EntryName} {i : FileIdentity}
    (hi : v.names.get dest = some i) : v.renamedEntry true s dest ≠ .ok v' := by
  unfold Volume.renamedEntry
  cases v.names.get s with
  | none => simp
  | some j => simp [hi]

theorem exec_keeps {dest : EntryName} (f : CallFaults) (n : ℕ) (c : Call) (v : Volume)
    (hc : c.Sparing dest) : Spares dest v (c.exec f n v).2 := by
  intro i hi
  cases c with
  | rename noreplace s name =>
    obtain ⟨rfl, rfl⟩ := hc
    simp only [Call.exec, Volume.renameatEntry]
    split
    · exact hi
    · exact hi
    · next hok => exact absurd hok (renamedEntry_occupied hi)
    · next hok => exact absurd hok (renamedEntry_occupied hi)
  | _ => exact hi

theorem renameMissingAndVerify_sparing (s : EntryName) (anchor : FileIdentity) (dest : EntryName) :
    (renameMissingAndVerify s anchor dest).Calls (Call.Sparing dest) := by
  refine ⟨⟨rfl, rfl⟩, ?_⟩
  intro renamed
  rcases renamed with (_ | _ | _ | _) | _
  all_goals try exact trivial
  refine ⟨trivial, ?_⟩
  rintro (_ | anchored)
  · exact trivial
  refine ⟨trivial, ?_⟩
  rintro (_ | named)
  · exact trivial
  show Prog.Calls _ (if _ then _ else _)
  split_ifs
  · exact trivial
  · exact trivial

theorem syncPublished_sparing (dest : EntryName) : syncPublished.Calls (Call.Sparing dest) := by
  refine ⟨trivial, ?_⟩
  rintro (_ | _)
  · exact trivial
  · exact trivial

theorem syncRelocated_sparing (dest : EntryName) : syncRelocated.Calls (Call.Sparing dest) := by
  refine ⟨trivial, ?_⟩
  rintro (_ | _)
  · exact trivial
  · exact trivial

theorem publishRename_sparing (h : r.expected = .missing) (cur : Option ExistingReplacementTarget) :
    (publishRename r cur).Calls (Call.Sparing r.destination) := by
  unfold publishRename
  simp only [h]
  split_ifs
  · exact trivial
  apply (renameMissingAndVerify_sparing r.source r.opened r.destination).bind
  rintro (e | _ | _ | _)
  · exact trivial
  · exact syncPublished_sparing r.destination
  · exact trivial
  · exact ⟨trivial, fun _ => trivial⟩

theorem publishDestination_sparing (h : r.expected = .missing) :
    (publishDestination r).Calls (Call.Sparing r.destination) := by
  refine ⟨trivial, ?_⟩
  rintro ((_ | _ | _ | _) | stat)
  all_goals try exact trivial
  · exact publishRename_sparing h none
  · exact publishRename_sparing h (some stat)

theorem publishBlocking_sparing (h : r.expected = .missing) :
    (publishBlocking r).Calls (Call.Sparing r.destination) := by
  -- Three parents' calls and two stats precede the destination's.
  refine ⟨trivial, ?_⟩
  rintro (_ | _)
  · exact trivial
  refine ⟨trivial, ?_⟩
  rintro (_ | _)
  · exact trivial
  refine ⟨trivial, ?_⟩
  rintro (_ | _)
  · exact trivial
  refine ⟨trivial, ?_⟩
  rintro (_ | openedSource)
  · exact trivial
  refine ⟨trivial, ?_⟩
  rintro ((_ | _ | _ | _) | namedSource)
  all_goals try exact trivial
  show Prog.Calls _ (if _ then _ else _)
  split_ifs
  · exact trivial
  · exact publishDestination_sparing h

theorem publish_sparing (h : r.expected = .missing) (gate : Option GateFault) :
    (publish r gate).Calls (Call.Sparing r.destination) := by
  refine ⟨trivial, ?_⟩
  rintro (_ | _)
  · exact trivial
  match gate with
  | none => exact publishBlocking_sparing h
  | some .closed => exact trivial
  | some .joinError => exact (publishBlocking_sparing h).bind fun _ => trivial

/-- The destination of a relocation is expected to be missing. -/
def RelocateRequest.ExpectsMissing (r : RelocateRequest) : Prop :=
  r.expectedDestination = none ∨ r.expectedDestination = some .missing

theorem relocateRename_eq {r : RelocateRequest} (h : r.ExpectsMissing)
    (s : ExistingReplacementTarget) (current : ReplacementTargetIdentity) :
    relocateRename r s current = relocateMissing r current := by
  unfold relocateRename
  obtain h | h := h
  · rw [h]
  · rw [h]

theorem relocateMissing_sparing (r : RelocateRequest) (cur : ReplacementTargetIdentity) :
    (relocateMissing r cur).Calls (Call.Sparing r.destination) := by
  unfold relocateMissing
  split_ifs
  · exact trivial
  refine ⟨trivial, ?_⟩
  rintro (_ | anchor)
  · exact trivial
  refine ⟨trivial, ?_⟩
  rintro (_ | anchoredSource)
  · exact trivial
  show Prog.Calls _ (if _ then _ else _)
  split_ifs
  · exact trivial
  apply (renameMissingAndVerify_sparing r.source anchor r.destination).bind
  rintro (e | _ | _ | _)
  · exact trivial
  · exact syncRelocated_sparing r.destination
  · exact trivial
  · exact ⟨trivial, fun _ => trivial⟩

theorem relocate_sparing {r : RelocateRequest} (h : r.ExpectsMissing) :
    (relocate r).Calls (Call.Sparing r.destination) := by
  refine ⟨trivial, ?_⟩
  rintro (_ | _)
  · exact trivial
  refine ⟨trivial, ?_⟩
  rintro (_ | _)
  · exact trivial
  refine ⟨trivial, ?_⟩
  rintro (_ | _)
  · exact trivial
  refine ⟨trivial, ?_⟩
  rintro (_ | s)
  · exact trivial
  show Prog.Calls _ (if _ then _ else _)
  split_ifs
  · exact trivial
  refine ⟨trivial, ?_⟩
  rintro (e | stat)
  · show Prog.Calls _ (if _ then _ else _)
    split_ifs
    · rw [relocateRename_eq h]
      exact relocateMissing_sparing r .missing
    · exact trivial
  · show Prog.Calls _ (relocateRename r s (.existing stat))
    rw [relocateRename_eq h]
    exact relocateMissing_sparing r _

/-! ## The answer -/

/-- The name was looked up after the rename and was the object. -/
def Verified (name : EntryName) (pinned : FileIdentity) (log : List (Performed Call Volume)) :
    Prop :=
  ∃ e ∈ log, e.call = .statRenamed name ∧ e.before.names.get name = some pinned

theorem Verified.cons {name : EntryName} {pinned : FileIdentity}
    {log : List (Performed Call Volume)} (e : Performed Call Volume) (h : Verified name pinned log) :
    Verified name pinned (e :: log) := by
  obtain ⟨e', he', h⟩ := h
  exact ⟨e', List.mem_cons_of_mem _ he', h⟩

section Answers

variable {f : CallFaults} {env : ℕ → Volume → Volume}

variable {v : Volume} {r : ReplaceRequest}

theorem fstat_identity {n : ℕ} {i : FileIdentity} {stat : ExistingReplacementTarget}
    (h : (Call.exec f n (.fstat i) v).1 = .ok stat) : stat.identity = i := by
  simp only [Call.exec, withFault] at h
  split at h
  · cases h
  · cases h
    rfl

theorem statRenamed_identity {n : ℕ} {name : EntryName} {stat : ExistingReplacementTarget}
    (h : (Call.exec f n (.statRenamed name) v).1 = .ok stat) :
    v.names.get name = some stat.identity := by
  simp only [Call.exec, withFault, Volume.statat] at h
  split at h
  · cases h
  split at h
  · next i hi =>
    cases h
    exact hi
  · cases h

/-- What follows a rename that was made answers `a` only after the name was seen to be the
    anchor. -/
theorem renameMissingAndVerify_shows {α : Type} (accept : α → Prop) (s : EntryName)
    (anchor : FileIdentity) (dest : EntryName)
    (k : Except Errno CheckedMissingRename → Calls α)
    (hk : ∀ res, res ≠ .ok .renamed →
      Prog.Shows (Call.exec f) env accept (Verified dest anchor) (k res)) :
    Prog.Shows (Call.exec f) env accept (Verified dest anchor)
      ((renameMissingAndVerify s anchor dest).bind k) := by
  refine Prog.Shows.skip (fun e _ h => h.cons e) ?_
  rintro ((_ | _ | _ | _) | _)
  all_goals try exact hk _ (by simp)
  refine Prog.Shows.call fun n v => ?_
  cases ha : (Call.exec f n (.fstat anchor) (env n v)).1 with
  | error e => exact (hk _ (by simp)).mono fun _ h => h.cons _
  | ok anchored =>
  refine Prog.Shows.call fun m w => ?_
  cases hn : (Call.exec f m (.statRenamed dest) (env m w)).1 with
  | error e => exact (hk _ (by simp)).mono fun _ h => (h.cons _).cons _
  | ok named =>
  by_cases hs : anchored ≠ named
  · simp only [if_pos hs]
    exact (hk _ (by simp)).mono fun _ h => (h.cons _).cons _
  apply Prog.Shows.of_all
  intro log
  rw [not_not] at hs
  subst hs
  have hg := statRenamed_identity hn
  rw [fstat_identity ha] at hg
  exact ⟨_, List.mem_cons_of_mem _ List.mem_cons_self, rfl, hg⟩

theorem publishRename_shows (h : r.expected = .missing) (cur : Option ExistingReplacementTarget) :
    Prog.Shows (Call.exec f) env (· = .published) (Verified r.destination r.opened)
      (publishRename r cur) := by
  unfold publishRename
  simp only [h]
  split_ifs
  · exact .done (by simp)
  apply renameMissingAndVerify_shows
  rintro (e | _ | _ | _) hr
  · exact .done (by simp)
  · exact absurd rfl hr
  · exact .done (by simp)
  · exact .skip (fun e _ h => h.cons e) fun _ => .done (by simp)

theorem publishDestination_shows (h : r.expected = .missing) :
    Prog.Shows (Call.exec f) env (· = .published) (Verified r.destination r.opened)
      (publishDestination r) := by
  refine .skip (fun e _ h => h.cons e) ?_
  rintro ((_ | _ | _ | _) | stat)
  all_goals try exact .done (by simp)
  · exact publishRename_shows h none
  · exact publishRename_shows h (some stat)

theorem publishBlocking_shows (h : r.expected = .missing) :
    Prog.Shows (Call.exec f) env (· = .published) (Verified r.destination r.opened)
      (publishBlocking r) := by
  refine .skip (fun e _ h => h.cons e) ?_
  rintro (_ | _)
  · exact .done (by simp)
  refine .skip (fun e _ h => h.cons e) ?_
  rintro (_ | _)
  · exact .done (by simp)
  refine .skip (fun e _ h => h.cons e) ?_
  rintro (_ | _)
  · exact .done (by simp)
  refine .skip (fun e _ h => h.cons e) ?_
  rintro (_ | openedSource)
  · exact .done (by simp)
  refine .skip (fun e _ h => h.cons e) ?_
  rintro ((_ | _ | _ | _) | namedSource)
  all_goals try exact .done (by simp)
  simp only
  split_ifs
  · exact .done (by simp)
  · exact publishDestination_shows h

theorem publish_shows (h : r.expected = .missing) (gate : Option GateFault) :
    Prog.Shows (Call.exec f) env (· = .published) (Verified r.destination r.opened)
      (publish r gate) := by
  refine .skip (fun e _ h => h.cons e) ?_
  rintro (_ | _)
  · exact .done (by simp)
  match gate with
  | none => exact publishBlocking_shows h
  | some .closed => exact .done (by simp)
  | some .joinError =>
    intro n v hp
    simp [Prog.run_bind] at hp

/-- The object was opened by the source's name, and later found at the destination's. -/
def PinnedAndVerified (source destination : EntryName) (log : List (Performed Call Volume)) :
    Prop :=
  ∃ pinned, (∃ e ∈ log, e.call = .openPath source ∧ e.before.names.get source = some pinned) ∧
    Verified destination pinned log

theorem PinnedAndVerified.cons {s dest : EntryName}
    {log : List (Performed Call Volume)} (e : Performed Call Volume)
    (h : PinnedAndVerified s dest log) :
    PinnedAndVerified s dest (e :: log) := by
  obtain ⟨pinned, ⟨e', he', ho⟩, hv⟩ := h
  exact ⟨pinned, ⟨e', List.mem_cons_of_mem _ he', ho⟩, hv.cons e⟩

theorem openPath_identity {n : ℕ} {name : EntryName} {i : FileIdentity}
    (h : (Call.exec f n (.openPath name) v).1 = .ok i) : v.names.get name = some i := by
  simp only [Call.exec, withFault] at h
  split at h
  · cases h
  split at h
  · next j hj =>
    cases h
    exact hj
  · cases h

theorem missingOr_ne_relocated {e : Errno} {out : CheckedRelocationOutcome}
    (h : out ≠ .relocated) : missingOr e out ≠ .ok .relocated := by
  unfold missingOr
  split_ifs
  · simpa using h
  · simp

theorem RelocateRequest.occupied_ne_relocated (r : RelocateRequest) : r.occupied ≠ .relocated := by
  unfold RelocateRequest.occupied
  split_ifs
  · simp
  · simp

theorem relocateMissing_shows (r : RelocateRequest) (cur : ReplacementTargetIdentity) :
    Prog.Shows (Call.exec f) env (· = .ok .relocated) (PinnedAndVerified r.source r.destination)
      (relocateMissing r cur) := by
  unfold relocateMissing
  split_ifs
  · exact .done (by simpa using r.occupied_ne_relocated)
  refine .call fun n v => ?_
  cases ho : (Call.exec f n (.openPath r.source) (env n v)).1 with
  | error e => exact .done (missingOr_ne_relocated (by simp))
  | ok anchor =>
  -- From here on the object is pinned; what is missing is the look at the destination.
  have hp : ∀ log, Verified r.destination anchor log → PinnedAndVerified r.source
      r.destination (⟨.openPath r.source, env n v,
        (Call.exec f n (.openPath r.source) (env n v)).2⟩ :: log) := by
    intro log h
    exact ⟨anchor, ⟨_, List.mem_cons_self, rfl, openPath_identity ho⟩, h.cons _⟩
  refine Prog.Shows.mono ?_ hp
  refine .skip (fun e _ h => h.cons e) ?_
  rintro (_ | anchoredSource)
  · exact .done (by simp)
  simp only
  split_ifs
  · exact .done (by simp)
  apply renameMissingAndVerify_shows
  rintro (e | _ | _ | _) hr
  · exact .done (by simp)
  · exact absurd rfl hr
  · exact .done (by simpa using r.occupied_ne_relocated)
  · exact .skip (fun e _ h => h.cons e) fun _ => .done (by simp)

theorem relocate_shows {r : RelocateRequest} (h : r.ExpectsMissing) :
    Prog.Shows (Call.exec f) env (· = .ok .relocated) (PinnedAndVerified r.source r.destination)
      (relocate r) := by
  refine .skip (fun e _ h => h.cons e) ?_
  rintro (_ | _)
  · exact .done (missingOr_ne_relocated (by simp))
  refine .skip (fun e _ h => h.cons e) ?_
  rintro (_ | _)
  · exact .done (missingOr_ne_relocated (by simp))
  refine .skip (fun e _ h => h.cons e) ?_
  rintro (_ | _)
  · exact .done (by simp)
  refine .skip (fun e _ h => h.cons e) ?_
  rintro (_ | s)
  · exact .done (missingOr_ne_relocated (by simp))
  simp only
  split_ifs
  · exact .done (by simp)
  refine .skip (fun e _ h => h.cons e) ?_
  rintro (e | stat)
  · simp only
    split_ifs
    · rw [relocateRename_eq h]
      exact relocateMissing_shows r .missing
    · exact .done (by simp)
  · simp only
    rw [relocateRename_eq h]
    exact relocateMissing_shows r _

end Answers

/-- **A missing destination.** Whatever others do between the calls of a publication or a
    relocation whose destination is expected to be missing, and whichever calls fail: no call
    replaces or removes an entry that is at the destination when the call is made. "Published"
    is answered only when the destination, looked up after the rename, was the open stage, and
    "relocated" only when it was the object that had been opened by the source's name. -/
theorem missing_destination_kept (f : CallFaults) (env : ℕ → Volume → Volume) (v : Volume) :
    (∀ (r : ReplaceRequest) (gate : Option GateFault), r.expected = .missing →
      let out := Prog.run (Call.exec f) env 0 (publish r gate) v
      (∀ e ∈ out.log, Spares r.destination e.before e.after) ∧
      (out.answer = .published → Verified r.destination r.opened out.log)) ∧
    (∀ r : RelocateRequest, r.ExpectsMissing →
      let out := Prog.run (Call.exec f) env 0 (relocate r) v
      (∀ e ∈ out.log, Spares r.destination e.before e.after) ∧
      (out.answer = .ok .relocated → PinnedAndVerified r.source r.destination out.log)) := by
  constructor
  · intro r gate h
    refine ⟨?_, publish_shows h gate 0 v⟩
    exact Prog.guarantee (exec_keeps f) (publish_sparing h gate) 0 v
  · intro r h
    refine ⟨?_, relocate_shows h 0 v⟩
    exact Prog.guarantee (exec_keeps f) (relocate_sparing h) 0 v

end DufsRam.RootedFs
