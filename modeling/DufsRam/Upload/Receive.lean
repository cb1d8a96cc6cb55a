import DufsRam.DiskSpace.Tracker
import DufsRam.Upload.Protocol

/-!
# Receiving the body of an upload

Model of `receive_upload_body` and `write_upload_chunk` (`upload/transfer.rs`, lines 422-558) as one
loop over the file, the reservation and the countdown to the next space check, without the rest of
the upload. What `Upload.Transfer` leaves to a fault (the size of the reservation, the time of a
check) is computed here.

Results:
* `receiveTurn_received`: whatever goes wrong in a turn, a prefix of the first `remaining` bytes of its
  chunk has been written.
* `receive_upload_body_exact`: if nothing goes wrong, what is written and answered is a function of
  the body and of `remaining`.
-/

namespace DufsRam.Upload

open DiskSpace (DiskSpaceState DiskSpaceReservation reservationReleaseBatchBytes)

/-! ## The file and the reservation -/

/-- A file and the position of its next write. What a `tokio` file still has in its buffer counts as
    written: the next operation on the file waits for it. -/
structure OpenFile where
  file : DurableFile UInt8
  cursor : ℕ

/-- `write_all`. -/
def OpenFile.writeAll (f : OpenFile) (data : List UInt8) : OpenFile :=
  ⟨f.file.writeAt 0 f.cursor data, f.cursor + data.length⟩

/-- A reservation with the tracker it belongs to. -/
structure SpaceLease where
  tracker : DiskSpaceState
  reservation : DiskSpaceReservation

namespace SpaceLease

/-- `flush_pending_release` (`disk_space.rs`, lines 281-284). -/
def flushPendingRelease (l : SpaceLease) : SpaceLease where
  tracker := l.tracker.release l.reservation.device l.reservation.pendingRelease
  reservation := { l.reservation with pendingRelease := 0 }

/-- `consume` (`disk_space.rs`, lines 239-250). -/
def consume (l : SpaceLease) (bytes : ℕ) : SpaceLease :=
  let l := { l with reservation := l.reservation.consume bytes }
  if reservationReleaseBatchBytes ≤ l.reservation.pendingRelease then l.flushPendingRelease else l

theorem remaining_consume (l : SpaceLease) (bytes : ℕ) :
    (l.consume bytes).reservation.remaining = l.reservation.remaining - bytes := by
  have hc : (l.reservation.consume bytes).remaining = l.reservation.remaining - bytes := by
    simp only [DiskSpaceReservation.consume]
    omega
  simp only [consume]
  split
  · exact hc
  · exact hc

end SpaceLease

/-! ## The loop -/

/-- `DISK_SPACE_RECHECK_BYTES` (`upload.rs`, line 88). -/
def diskSpaceRecheckBytes : ℕ := 8 * 1024 * 1024

/-- `UploadTransferOptions` (lines 414-420). `minimum_free` is in the answer of the space check, and
    `force_shutdown` is a frame. -/
structure UploadTransferOptions where
  remaining : ℕ
  idleTimeout : ℕ
  totalDeadline : ℕ
deriving DecidableEq

/-- What the `select!` of lines 452-472 comes to: the forced shutdown, an error of the stream, the
    timer at some instant, a chunk, or the end of the stream. -/
inductive BodyFrame where
  | forceShutdown
  | failed
  | elapsed (now : ℕ)
  | chunk (data : List UInt8)
  | ended
deriving DecidableEq

/-- One turn of the loop: the frame; the answer of the space check, `none` for an error; the bytes
    that reach the file if the write fails; and the clock in lines 507 and 513. -/
structure Turn where
  frame : BodyFrame
  spaceAvailable : Option Bool
  landed : Option ℕ
  written : ℕ
  checked : ℕ
deriving DecidableEq

/-- The variables of `receive_upload_body`. -/
structure Receiver where
  file : OpenFile
  lease : SpaceLease
  remaining : ℕ
  bytesUntilSpaceCheck : ℕ
  idleDeadline : ℕ

namespace Receiver

/-- The space check of `write_upload_chunk` (lines 542-551). -/
def checkSpace (s : Receiver) (dataLen : ℕ) (t : Turn) : Except UploadTransferError Unit × Receiver :=
  if s.bytesUntilSpaceCheck ≤ dataLen then
    let s := { s with lease := s.lease.flushPendingRelease }
    match t.spaceAvailable with
    | none => (.error .io, s)
    | some false => (.error .insufficientStorage, s)
    | some true => (.ok (), { s with bytesUntilSpaceCheck := diskSpaceRecheckBytes })
  else (.ok (), s)

/-- `write_upload_chunk` (lines 523-558). A length always fits in `u64`. -/
def writeUploadChunk (s : Receiver) (data : List UInt8) (t : Turn) :
    Except UploadTransferError Unit × Receiver :=
  if data = [] then (.ok (), s)
  else if s.lease.reservation.remaining < data.length then (.error .excessBody, s)
  else
    match s.checkSpace data.length t with
    | (.error error, s) => (.error error, s)
    | (.ok _, s) =>
      match t.landed with
      | some n => (.error .io, { s with file := s.file.writeAll (data.take n) })
      | none =>
        (.ok (), { s with
          file := s.file.writeAll data
          lease := s.lease.consume data.length
          bytesUntilSpaceCheck := s.bytesUntilSpaceCheck - data.length })

/-- The write of the accepted bytes and the deadlines after it (lines 498-515). Instants end at
    `lastInstant`. -/
def acceptBytes (lastInstant : ℕ) (o : UploadTransferOptions) (s : Receiver) (data : List UInt8)
    (t : Turn) : Except UploadTransferError Unit × Receiver :=
  match s.writeUploadChunk data t with
  | (.error error, s) => (.error error, s)
  | (.ok _, s) =>
    let s := { s with remaining := s.remaining - data.length }
    if lastInstant < t.written + o.idleTimeout then (.error .io, s)
    else
      let s := { s with idleDeadline := t.written + o.idleTimeout }
      if o.totalDeadline ≤ t.checked then (.error .totalTimeout, s) else (.ok (), s)

/-- Lines 477-519 for a chunk. No result if the loop goes on. -/
def receiveChunk (lastInstant : ℕ) (o : UploadTransferOptions) (s : Receiver) (data : List UInt8)
    (t : Turn) : Option (Except UploadTransferError Unit) × Receiver :=
  let acceptedBytes := min s.remaining data.length
  match if 0 < acceptedBytes then s.acceptBytes lastInstant o (data.take acceptedBytes) t
      else (.ok (), s) with
  | (.error error, s) => (some (.error error), s)
  | (.ok _, s) => (if acceptedBytes < data.length then some (.error .excessBody) else none, s)

/-- One turn (lines 448-520). A timer that fires before the deadline is no result of the `select!`:
    the loop still waits. -/
def receiveTurn (lastInstant : ℕ) (o : UploadTransferOptions) (s : Receiver) (t : Turn) :
    Option (Except UploadTransferError Unit) × Receiver :=
  match t.frame with
  | .forceShutdown | .failed => (some (.error .io), s)
  | .elapsed now =>
    if now < min o.totalDeadline s.idleDeadline then (none, s)
    else (some (.error (if o.totalDeadline ≤ now then .totalTimeout else .idleTimeout)), s)
  | .ended => (some (.ok ()), s)
  | .chunk data => if data = [] then (none, s) else s.receiveChunk lastInstant o data t

/-- The loop (lines 448-520). No result if it still waits after the last turn. -/
def receiveTurns (lastInstant : ℕ) (o : UploadTransferOptions) :
    Receiver → List Turn → Option (Except UploadTransferError Unit) × Receiver
  | s, [] => (none, s)
  | s, t :: turns =>
    match s.receiveTurn lastInstant o t with
    | (some result, s) => (some result, s)
    | (none, s) => receiveTurns lastInstant o s turns

end Receiver

/-- `receive_upload_body` (lines 422-521). -/
def receiveUploadBody (lastInstant started : ℕ) (o : UploadTransferOptions) (file : OpenFile)
    (lease : SpaceLease) (turns : List Turn) : Option (Except UploadTransferError Unit) × Receiver :=
  let s : Receiver := ⟨file, lease, o.remaining, diskSpaceRecheckBytes, started + o.idleTimeout⟩
  if lastInstant < started + o.idleTimeout then (some (.error .io), s)
  else s.receiveTurns lastInstant o turns

/-! ## What is written -/

namespace Receiver

/-- From `s` to `s'` exactly `data` has been written, from the position of the file on. -/
structure Wrote (s : Receiver) (data : List UInt8) (s' : Receiver) : Prop where
  content : s'.file.file.content = (s.file.file.writeAt 0 s.file.cursor data).content
  cursor : s'.file.cursor = s.file.cursor + data.length

/-- A write sees only the content of the file. -/
theorem content_writeAt_congr {f g : DurableFile UInt8} (h : f.content = g.content) (pos : ℕ)
    (data : List UInt8) : (f.writeAt 0 pos data).content = (g.writeAt 0 pos data).content := by
  simp [DurableFile.writeAt, h]

variable {s s' s'' : Receiver} {data rest : List UInt8} {t : Turn} {lastInstant : ℕ}
  {o : UploadTransferOptions}

theorem Wrote.of_file_eq (h : s'.file = s.file) : s.Wrote [] s' := by
  refine ⟨?_, by rw [h]; rfl⟩
  rw [h]
  simp [DurableFile.writeAt]

theorem Wrote.of_writeAll (h : s'.file = s.file.writeAll data) : s.Wrote data s' :=
  ⟨by rw [h]; rfl, by rw [h]; rfl⟩

theorem Wrote.trans (h : s.Wrote data s') (h' : s'.Wrote rest s'') : s.Wrote (data ++ rest) s'' := by
  constructor
  · rw [h'.content, h.cursor, content_writeAt_congr h.content, DurableFile.content_writeAt_writeAt]
  · rw [h'.cursor, h.cursor, List.length_append]
    omega

theorem Wrote.congr_left (h : s.Wrote data s') (hf : s''.file = s.file) : s''.Wrote data s' :=
  ⟨by rw [hf]; exact h.content, by rw [hf]; exact h.cursor⟩

/-- The space check leaves the file and the bytes to come alone. -/
structure SameRest (s s' : Receiver) : Prop where
  file : s'.file = s.file
  remaining : s'.remaining = s.remaining
  reserved : s'.lease.reservation.remaining = s.lease.reservation.remaining

theorem checkSpace_sameRest (s : Receiver) (dataLen : ℕ) (t : Turn) :
    s.SameRest (s.checkSpace dataLen t).2 := by
  unfold checkSpace
  split
  · match t.spaceAvailable with
    | none => exact ⟨rfl, rfl, rfl⟩
    | some false => exact ⟨rfl, rfl, rfl⟩
    | some true => exact ⟨rfl, rfl, rfl⟩
  · exact ⟨rfl, rfl, rfl⟩

theorem checkSpace_ok (dataLen : ℕ) (h : t.spaceAvailable = some true) :
    (s.checkSpace dataLen t).1 = .ok () := by
  unfold checkSpace
  split
  · simp [h]
  · rfl

/-- What a write that was asked for `data` has done, with the bytes still to come. -/
structure Progress (s : Receiver) (data : List UInt8) (result : Except UploadTransferError Unit)
    (s' : Receiver) (remaining : ℕ) : Prop where
  wrote : ∃ written, written <+: data ∧ s.Wrote written s'
  done : result = .ok () → s.Wrote data s' ∧ s'.remaining = remaining ∧
    s'.lease.reservation.remaining = s.lease.reservation.remaining - data.length

theorem Progress.stopped {err : UploadTransferError} {remaining : ℕ} (h : s'.file = s.file) :
    s.Progress data (.error err) s' remaining :=
  ⟨⟨[], List.nil_prefix, .of_file_eq h⟩, nofun⟩

theorem writeUploadChunk_progress (s : Receiver) (data : List UInt8) (t : Turn) :
    s.Progress data (s.writeUploadChunk data t).1 (s.writeUploadChunk data t).2 s.remaining := by
  have hs := s.checkSpace_sameRest data.length t
  unfold writeUploadChunk
  split
  · rename_i hd
    subst hd
    exact ⟨⟨[], List.nil_prefix, .of_file_eq rfl⟩, fun _ => ⟨.of_file_eq rfl, rfl, rfl⟩⟩
  split
  · exact .stopped rfl
  generalize s.checkSpace data.length t = checked at hs
  obtain ⟨err | _, s₁⟩ := checked
  · exact .stopped hs.file
  match t.landed with
  | some n =>
    refine ⟨⟨data.take n, List.take_prefix n data, ?_⟩, nofun⟩
    exact (Wrote.of_writeAll rfl).congr_left hs.file.symm
  | none =>
    have hw : s₁.Wrote data { s₁ with
        file := s₁.file.writeAll data
        lease := s₁.lease.consume data.length
        bytesUntilSpaceCheck := s₁.bytesUntilSpaceCheck - data.length } := .of_writeAll rfl
    refine ⟨⟨data, List.prefix_rfl, hw.congr_left hs.file.symm⟩, fun _ => ?_⟩
    refine ⟨hw.congr_left hs.file.symm, hs.remaining, ?_⟩
    rw [← hs.reserved]
    exact s₁.lease.remaining_consume data.length

theorem writeUploadChunk_ok (hr : data.length ≤ s.lease.reservation.remaining)
    (hs : t.spaceAvailable = some true) (hl : t.landed = none) :
    (s.writeUploadChunk data t).1 = .ok () := by
  have hc := checkSpace_ok (s := s) data.length hs
  unfold writeUploadChunk
  split
  · rfl
  rw [if_neg (Nat.not_lt.mpr hr)]
  generalize s.checkSpace data.length t = checked at hc
  obtain ⟨r, s₁⟩ := checked
  obtain rfl := hc
  simp [hl]

theorem acceptBytes_progress (lastInstant : ℕ) (o : UploadTransferOptions) (s : Receiver)
    (data : List UInt8) (t : Turn) :
    s.Progress data (s.acceptBytes lastInstant o data t).1 (s.acceptBytes lastInstant o data t).2
      (s.remaining - data.length) := by
  have hw := s.writeUploadChunk_progress data t
  unfold acceptBytes
  generalize s.writeUploadChunk data t = write at hw
  obtain ⟨err | _, s₁⟩ := write
  · exact ⟨hw.wrote, nofun⟩
  obtain ⟨hwr, hr, hrs⟩ := hw.done rfl
  have hf {s₂ : Receiver} (h : s₂.file = s₁.file) : s.Wrote data s₂ :=
    ⟨h ▸ hwr.content, h ▸ hwr.cursor⟩
  simp only
  split
  · exact ⟨⟨data, List.prefix_rfl, hf rfl⟩, nofun⟩
  split
  · exact ⟨⟨data, List.prefix_rfl, hf rfl⟩, nofun⟩
  · refine ⟨⟨data, List.prefix_rfl, hf rfl⟩, fun _ => ⟨hf rfl, ?_, hrs⟩⟩
    rw [← hr]

/-- What a turn has done with the chunk `data`. -/
structure Received (s : Receiver) (data : List UInt8)
    (result : Option (Except UploadTransferError Unit)) (s' : Receiver) : Prop where
  wrote : ∃ written, written <+: data.take s.remaining ∧ s.Wrote written s'
  goesOn : result = none → data.length ≤ s.remaining ∧ s.Wrote data s' ∧
    s'.remaining = s.remaining - data.length ∧
    s'.lease.reservation.remaining = s.lease.reservation.remaining - data.length

theorem take_min_length (n : ℕ) (data : List UInt8) :
    data.take (min n data.length) = data.take n := by
  rw [← List.take_take, List.take_length]

theorem receiveChunk_received (lastInstant : ℕ) (o : UploadTransferOptions) (s : Receiver)
    (data : List UInt8) (t : Turn) :
    s.Received data (s.receiveChunk lastInstant o data t).1 (s.receiveChunk lastInstant o data t).2 := by
  have ha := s.acceptBytes_progress lastInstant o (data.take s.remaining) t
  simp only [receiveChunk, take_min_length]
  by_cases hp : 0 < min s.remaining data.length
  · rw [if_pos hp]
    generalize s.acceptBytes lastInstant o (data.take s.remaining) t = accept at ha
    obtain ⟨err | _, s₁⟩ := accept
    · exact ⟨ha.wrote, nofun⟩
    obtain ⟨hw, hr, hrs⟩ := ha.done rfl
    refine ⟨⟨_, List.prefix_rfl, hw⟩, fun hn => ?_⟩
    have hal : data.length ≤ s.remaining := by
      by_contra hm
      simp only [if_pos (show min s.remaining data.length < data.length by omega)] at hn
      exact nomatch hn
    rw [List.take_of_length_le hal] at hw hr hrs
    exact ⟨hal, hw, hr, hrs⟩
  · rw [if_neg hp]
    refine ⟨⟨[], List.nil_prefix, .of_file_eq rfl⟩, fun hn => ?_⟩
    have he : data = [] := by
      by_contra hd
      have := List.length_pos_of_ne_nil hd
      simp only [if_pos (show min s.remaining data.length < data.length by omega)] at hn
      exact nomatch hn
    subst he
    exact ⟨Nat.zero_le _, .of_file_eq rfl, rfl, rfl⟩

/-- The bytes of the body that come with a turn. -/
def turnData (t : Turn) : List UInt8 :=
  match t.frame with
  | .chunk data => data
  | _ => []

/-- A turn that does not touch anything. -/
theorem Received.unchanged (r : Option (Except UploadTransferError Unit)) : s.Received [] r s :=
  ⟨⟨[], List.nil_prefix, .of_file_eq rfl⟩,
    fun _ => ⟨Nat.zero_le _, .of_file_eq rfl, rfl, rfl⟩⟩

theorem receiveTurn_received (lastInstant : ℕ) (o : UploadTransferOptions) (s : Receiver) (t : Turn) :
    s.Received (turnData t) (s.receiveTurn lastInstant o t).1 (s.receiveTurn lastInstant o t).2 := by
  unfold receiveTurn turnData
  cases t.frame with
  | forceShutdown | failed | ended => exact .unchanged _
  | elapsed now =>
    simp only
    split
    · exact .unchanged _
    · exact .unchanged _
  | chunk data =>
    simp only
    split
    · rename_i hd
      subst hd
      exact .unchanged _
    · exact s.receiveChunk_received lastInstant o data t

/-! ## Without a fault -/

/-- The space check of a turn succeeds, and the write and the clock after it are in order. -/
structure Undisturbed (lastInstant : ℕ) (o : UploadTransferOptions) (t : Turn) : Prop where
  space : t.spaceAvailable = some true
  landed : t.landed = none
  idle : t.written + o.idleTimeout ≤ lastInstant
  total : t.checked < o.totalDeadline

theorem acceptBytes_ok (ht : Undisturbed lastInstant o t)
    (hr : data.length ≤ s.lease.reservation.remaining) :
    (s.acceptBytes lastInstant o data t).1 = .ok () := by
  have hw := writeUploadChunk_ok hr ht.space ht.landed
  unfold acceptBytes
  generalize s.writeUploadChunk data t = write at hw
  obtain ⟨r, s₁⟩ := write
  obtain rfl := hw
  simp [if_neg (Nat.not_lt.mpr ht.idle), if_neg (Nat.not_le.mpr ht.total)]

theorem receiveChunk_undisturbed (ht : Undisturbed lastInstant o t)
    (hrs : s.remaining ≤ s.lease.reservation.remaining) :
    (s.receiveChunk lastInstant o data t).1 =
        (if data.length ≤ s.remaining then none else some (.error .excessBody)) ∧
      s.Wrote (data.take s.remaining) (s.receiveChunk lastInstant o data t).2 := by
  have hl : (data.take s.remaining).length ≤ s.lease.reservation.remaining :=
    (List.length_take_le _ _).trans hrs
  have hr : (if min s.remaining data.length < data.length then
        some (.error .excessBody) else none) =
      (if data.length ≤ s.remaining then none
        else some (.error .excessBody) : Option (Except UploadTransferError Unit)) := by
    by_cases hal : data.length ≤ s.remaining
    · rw [if_pos hal, if_neg (by omega)]
    · rw [if_neg hal, if_pos (by omega)]
  have hok := acceptBytes_ok ht hl
  have ha := s.acceptBytes_progress lastInstant o (data.take s.remaining) t
  simp only [receiveChunk, take_min_length]
  by_cases hp : 0 < min s.remaining data.length
  · rw [if_pos hp]
    generalize s.acceptBytes lastInstant o (data.take s.remaining) t = accept at hok ha
    obtain ⟨r, s₁⟩ := accept
    obtain rfl := hok
    exact ⟨hr, (ha.done rfl).1⟩
  · rw [if_neg hp]
    have hn : data.take s.remaining = [] := by
      rw [← take_min_length, Nat.eq_zero_of_not_pos hp]
      rfl
    rw [hn]
    exact ⟨hr, .of_file_eq rfl⟩

/-- A turn with a chunk, of whatever length. -/
theorem receiveTurn_undisturbed (ht : Undisturbed lastInstant o t) (hf : t.frame = .chunk data)
    (hr : s.remaining ≤ s.lease.reservation.remaining) :
    (s.receiveTurn lastInstant o t).1 =
        (if data.length ≤ s.remaining then none else some (.error .excessBody)) ∧
      s.Wrote (data.take s.remaining) (s.receiveTurn lastInstant o t).2 := by
  simp only [receiveTurn, hf]
  split
  · rename_i hd
    subst hd
    rw [List.take_nil]
    exact ⟨rfl, .of_file_eq rfl⟩
  · exact receiveChunk_undisturbed ht hr

/-- The loop on the chunks of a body and the end of the stream. The reservation covers the bytes
    that may still be written. -/
theorem receiveTurns_undisturbed (chunks : List (List UInt8)) :
    ∀ (s : Receiver) (turns : List Turn),
      turns.map Turn.frame = chunks.map BodyFrame.chunk ++ [.ended] →
      (∀ t ∈ turns, Undisturbed lastInstant o t) →
      s.remaining ≤ s.lease.reservation.remaining →
      (s.receiveTurns lastInstant o turns).1 =
          some (if chunks.flatten.length ≤ s.remaining then .ok () else .error .excessBody) ∧
        s.Wrote (chunks.flatten.take s.remaining) (s.receiveTurns lastInstant o turns).2 := by
  induction chunks with
  | nil =>
    intro s turns hf _ _
    obtain ⟨t, rfl, hfr⟩ := List.map_eq_singleton_iff.mp hf
    have htr : s.receiveTurn lastInstant o t = (some (.ok ()), s) := by
      simp [receiveTurn, hfr]
    rw [receiveTurns, htr, List.flatten_nil, List.take_nil]
    exact ⟨(congrArg some (if_pos (Nat.zero_le _))).symm, .of_file_eq rfl⟩
  | cons data chunks ih =>
    intro s turns hf ht hrv
    obtain ⟨t, turns, rfl, hfr, hf⟩ := List.map_eq_cons_iff.mp hf
    obtain ⟨hrt, hw⟩ :=
      receiveTurn_undisturbed (ht t List.mem_cons_self) hfr hrv
    have hr := s.receiveTurn_received lastInstant o t
    rw [turnData, hfr] at hr
    rw [receiveTurns, List.flatten_cons, List.length_append]
    generalize s.receiveTurn lastInstant o t = turn at hrt hw hr
    obtain ⟨r, s₁⟩ := turn
    obtain rfl := hrt
    by_cases ha : data.length ≤ s.remaining
    · -- The whole chunk is written, and the loop goes on with what is left.
      simp only [if_pos ha] at hr ⊢
      obtain ⟨-, hc, hrm, hl⟩ := hr.goesOn rfl
      obtain ⟨hrs, hwr⟩ := ih s₁ turns hf
        (fun t' ht' => ht t' (List.mem_cons_of_mem _ ht')) (by omega)
      rw [hrm] at hrs hwr
      refine ⟨hrs.trans (congrArg some (if_congr (by omega) rfl rfl)), ?_⟩
      rw [List.take_append, List.take_of_length_le ha]
      exact hc.trans hwr
    · simp only [if_neg ha] at hw ⊢
      rw [List.take_append, Nat.sub_eq_zero_of_le (Nat.le_of_not_le ha), List.take_zero,
        List.append_nil]
      exact ⟨by rw [if_neg (by omega)], hw⟩

end Receiver

/-- The turns bring the chunks and then the end of the stream, and nothing goes wrong. -/
structure Delivers (lastInstant started : ℕ) (o : UploadTransferOptions)
    (chunks : List (List UInt8)) (turns : List Turn) : Prop where
  start : started + o.idleTimeout ≤ lastInstant
  frames : turns.map Turn.frame = chunks.map BodyFrame.chunk ++ [.ended]
  undisturbed : ∀ t ∈ turns, Receiver.Undisturbed lastInstant o t

/-- The first `remaining` bytes of the body are written from the position of the file on, and no
    others; the answer says whether that was all of the body. Another split of the same body, at
    other times, has the same result. -/
theorem receive_upload_body_exact {lastInstant started : ℕ} {o : UploadTransferOptions}
    {file : OpenFile} {lease : SpaceLease} {chunks : List (List UInt8)} {turns : List Turn}
    (hreserved : o.remaining ≤ lease.reservation.remaining)
    (h : Delivers lastInstant started o chunks turns) :
    let body := chunks.flatten
    let out := receiveUploadBody lastInstant started o file lease turns
    (out.1 = some (.ok ()) ↔ body.length ≤ o.remaining) ∧
    (out.1 = some (.error .excessBody) ↔ o.remaining < body.length) ∧
    out.2.file.file.content =
      (file.file.writeAt 0 file.cursor (body.take o.remaining)).content ∧
    out.2.file.cursor = file.cursor + min o.remaining body.length ∧
    ∀ (lastInstant' started' : ℕ) (lease' : SpaceLease) (chunks' : List (List UInt8))
      (turns' : List Turn), o.remaining ≤ lease'.reservation.remaining →
      Delivers lastInstant' started' o chunks' turns' → chunks'.flatten = body →
      let out' := receiveUploadBody lastInstant' started' o file lease' turns'
      out'.1 = out.1 ∧ out'.2.file.file.content = out.2.file.file.content ∧
        out'.2.file.cursor = out.2.file.cursor := by
  have hrn (lastInstant started : ℕ) (lease : SpaceLease) (chunks : List (List UInt8))
      (turns : List Turn) (hreserved : o.remaining ≤ lease.reservation.remaining)
      (h : Delivers lastInstant started o chunks turns) :
      let out := receiveUploadBody lastInstant started o file lease turns
      out.1 = some (if chunks.flatten.length ≤ o.remaining then .ok () else .error .excessBody) ∧
        out.2.file.file.content =
          (file.file.writeAt 0 file.cursor (chunks.flatten.take o.remaining)).content ∧
        out.2.file.cursor = file.cursor + min o.remaining chunks.flatten.length := by
    simp only [receiveUploadBody, if_neg (Nat.not_lt.mpr h.start)]
    obtain ⟨hr, hw⟩ := Receiver.receiveTurns_undisturbed chunks
      ⟨file, lease, o.remaining, diskSpaceRecheckBytes, started + o.idleTimeout⟩ turns h.frames
      h.undisturbed hreserved
    exact ⟨hr, hw.content, hw.cursor.trans (by rw [List.length_take])⟩
  obtain ⟨hr, hc, hcr⟩ := hrn lastInstant started lease chunks turns hreserved h
  simp only
  refine ⟨?_, ?_, hc, hcr, ?_⟩
  · rw [hr]
    simp
  · rw [hr]
    simp
  intro lastInstant' started' lease' chunks' turns' hr' h' hb
  obtain ⟨hrs', hc', hcr'⟩ :=
    hrn lastInstant' started' lease' chunks' turns' hr' h'
  rw [hrs', hc', hcr', hr, hc, hcr, hb]
  exact ⟨rfl, rfl, rfl⟩

/-- Five bytes in three chunks. -/
def exampleTurns : List Turn :=
  [.chunk [1, 2], .chunk [], .chunk [3, 4, 5], .ended].map fun frame =>
    ⟨frame, some true, none, 1, 1⟩

/-- Four bytes are still to come, and five are sent. -/
theorem receive_upload_body_exact_excess :
    Delivers 9 0 ⟨4, 1, 5⟩ [[1, 2], [], [3, 4, 5]] exampleTurns ∧
    (receiveUploadBody 9 0 ⟨4, 1, 5⟩ ⟨.new, 2⟩ ⟨⟨.empty, .empty⟩, ⟨7, 4, 0⟩⟩
      exampleTurns).2.file.file.content =
      ((DurableFile.new : DurableFile UInt8).writeAt 0 2 [1, 2, 3, 4]).content := by
  have hd : Delivers 9 0 ⟨4, 1, 5⟩ [[1, 2], [], [3, 4, 5]] exampleTurns := by
    refine ⟨by decide, rfl, List.forall_mem_map.mpr fun frame _ => ?_⟩
    exact ⟨rfl, rfl, Nat.le_of_ble_eq_true rfl, Nat.le_of_ble_eq_true rfl⟩
  exact ⟨hd, (receive_upload_body_exact le_rfl hd).2.2.1⟩

end DufsRam.Upload
