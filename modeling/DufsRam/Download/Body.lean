import DufsRam.Download.Range

/-!
# The response to a download and its body

`send_open_file_with_gate` (`download.rs`, lines 89-213) answers a request for an open file:
preconditions, the range, the announced headers, and a body that reads a window of the file.
`gated_file_body` (`download.rs`, lines 215-268) is that body: a stream that reads the window
piece by piece, each read at its own offset, and may get fewer bytes than it asked for.

The preconditions on validators are evaluated outside the modelled code, so a request carries
their results. Numbers are exact: the offset and the rest of a body stay below the size of the
file, which is a `u64`, and no read takes more than the rest.

Results:
* `sendOpenFile_body`: the window of a body is the announced one.
* `gatedFileBody_spec`: what a body emits and what it reads, for every pattern of short reads.
* `download_body_exact`: both together.
-/

namespace DufsRam.Download

/-! ## The response -/

/-- What `send_open_file_with_gate` reads of a request. A precondition field that is present
    comes with the result of its evaluation, a `Range` field with its text if it has one. -/
structure Request where
  headOnly : Bool
  ifMatch : Option Bool
  ifUnmodifiedSince : Option Bool
  ifNoneMatch : Option Bool
  ifModifiedSince : Option Bool
  ifRange : Bool
  ranges : List (Option (List Char))

/-- What it reads of the file: whether it is a regular file, its size, and whether its metadata
    give validators (`extract_cache_headers`). -/
structure FileMetadata where
  isFile : Bool
  size : ℕ
  hasValidators : Bool

inductive StatusCode
  | ok
  | partialContent
  | notModified
  | notFound
  | preconditionFailed
  | rangeNotSatisfiable
deriving DecidableEq

/-- The part of a response that the range decides. The body is the window of the file that
    `gated_file_body` is called with: the offset and the number of bytes. -/
structure Response where
  status : StatusCode
  contentRange : Option String
  contentLength : Option String
  body : Option (ℕ × ℕ)
deriving DecidableEq

/-- A response without a body. -/
def Response.empty (status : StatusCode) : Response :=
  ⟨status, none, none, none⟩

/-- The preconditions (`download.rs`, lines 116-138): the status of a request that ends here. -/
def Request.precondition (request : Request) : Option StatusCode :=
  let unmatched := match request.ifMatch with
    | some passes => !passes
    | none => request.ifUnmodifiedSince == some false
  let unmodified := match request.ifNoneMatch with
    | some passes => !passes
    | none => request.ifModifiedSince == some false
  if unmatched then some .preconditionFailed
  else if unmodified then some .notModified
  else none

/-- The parse of a `Range` field (`download.rs`, lines 150-152), which may not be a text. -/
def parsedRange (range : Option (List Char)) (size : ℕ) : ParsedRange :=
  match range with
  | some text => parseRange text size
  | none => .unsatisfiable

/-- The range of a request (`download.rs`, lines 147-168). -/
def Request.range (request : Request) (useRange : Bool) (size : ℕ) : Option ParsedRange :=
  if useRange then
    match request.ranges with
    | [] => none
    | range :: others =>
      if parsedRange range size = .ignore then some .ignore
      else if others ≠ [] then some .unsatisfiable
      else some (parsedRange range size)
  else none

/-- The headers and the body of a response (`download.rs`, lines 180-211). -/
def rangeResponse (headOnly : Bool) (size : ℕ) : Option ParsedRange → Response
  | some (.satisfiable start stop) =>
    let rangeSize := stop - start + 1
    { status := .partialContent
      contentRange := some s!"bytes {start}-{stop}/{size}"
      contentLength := some s!"{rangeSize}"
      body := if headOnly then none else some (start, rangeSize) }
  | some .unsatisfiable =>
    { status := .rangeNotSatisfiable
      contentRange := some s!"bytes */{size}"
      contentLength := none
      body := none }
  | none | some .ignore =>
    { status := .ok
      contentRange := none
      contentLength := some s!"{size}"
      body := if headOnly then none else some (0, size) }

/-- `send_open_file_with_gate` (`download.rs`, lines 104-212). -/
def sendOpenFile (request : Request) (file : FileMetadata) : Response :=
  if ¬ file.isFile then .empty .notFound
  else if file.hasValidators then
    match request.precondition with
    | some status => .empty status
    | none =>
      let useRange := !request.headOnly && request.ranges ≠ [] && !request.ifRange
      rangeResponse request.headOnly file.size (request.range useRange file.size)
  else rangeResponse request.headOnly file.size (request.range (!request.headOnly) file.size)

/-! ## The body -/

/-- `BUF_SIZE` (`server.rs`, line 67). -/
def bufSize : ℕ := 65536

/-- How a read ends: the deadline passes, the read fails, or it returns at most `limit` bytes of
    those that the file has at the offset. -/
inductive ReadAnswer
  | timedOut
  | failed
  | returned (limit : ℕ)
deriving DecidableEq

/-- `read_at` of an unchanged file: at most `length` bytes from `offset` on. -/
def readAt {β : Type} (content : List β) (offset length limit : ℕ) : List β :=
  (content.drop offset).take (min length limit)

/-- Why a body breaks off. -/
inductive BodyError
  | timedOut
  | failed
  | unexpectedEof
deriving DecidableEq

/-- A body from the outside: the chunks it emits, its end, and the offset and length of every
    read it makes. -/
structure BodyRun (β : Type) where
  chunks : List (List β)
  reads : List (ℕ × ℕ)
  result : Except BodyError Unit

/-- `gated_file_body` (`download.rs`, lines 215-268), from its `call`-th read on. -/
def gatedFileBody {β : Type} (content : List β) (answers : ℕ → ReadAnswer)
    (call offset remaining : ℕ) : BodyRun β :=
  if remaining = 0 then ⟨[], [], .ok ()⟩
  else
    let chunkSize := min remaining bufSize
    match answers call with
    | .timedOut => ⟨[], [(offset, chunkSize)], .error .timedOut⟩
    | .failed => ⟨[], [(offset, chunkSize)], .error .failed⟩
    | .returned limit =>
      let buffer := readAt content offset chunkSize limit
      if buffer = [] then ⟨[], [(offset, chunkSize)], .error .unexpectedEof⟩
      else
        let rest := gatedFileBody content answers (call + 1) (offset + buffer.length)
          (remaining - buffer.length)
        ⟨buffer :: rest.chunks, (offset, chunkSize) :: rest.reads, rest.result⟩
termination_by remaining
decreasing_by
  exact Nat.sub_lt (Nat.pos_of_ne_zero ‹_›) (List.length_pos_of_ne_nil ‹_›)

/-! ## The window of the body -/

/-- A satisfied range lies in the file. -/
theorem parsePositions_bounds {x last : List Char} {size st stop : ℕ}
    (h : parsePositions x last size = .satisfiable st stop) : st ≤ stop ∧ stop < size := by
  unfold parsePositions at h
  grind

theorem parseRange_bounds {range : List Char} {size st stop : ℕ}
    (h : parseRange range size = .satisfiable st stop) : st ≤ stop ∧ stop < size := by
  unfold parseRange at h
  split at h
  · cases h
  split_ifs at h
  · split at h
    · cases h
    · exact parsePositions_bounds h

/-- The announced window of a response with a body: the whole file, or the announced range. -/
inductive Announces (size : ℕ) (response : Response) : ℕ → ℕ → Prop
  | whole (hrange : response.contentRange = none)
      (hlength : response.contentLength = some (toString size)) : Announces size response 0 size
  | range (start stop : ℕ) (hstart : start ≤ stop) (hstop : stop < size)
      (hstatus : response.status = .partialContent)
      (hrange : response.contentRange = some s!"bytes {start}-{stop}/{size}")
      (hlength : response.contentLength = some (toString (stop - start + 1))) :
      Announces size response start (stop - start + 1)

theorem parsedRange_bounds {range : Option (List Char)} {size st stop : ℕ}
    (h : parsedRange range size = .satisfiable st stop) : st ≤ stop ∧ stop < size := by
  unfold parsedRange at h
  split at h
  · exact parseRange_bounds h
  · cases h

theorem range_bounds {req : Request} {useRange : Bool} {size st stop : ℕ}
    (h : req.range useRange size = some (.satisfiable st stop)) :
    st ≤ stop ∧ stop < size := by
  unfold Request.range at h
  split_ifs at h
  split at h
  · cases h
  split_ifs at h
  · cases h
  · cases h
  · exact parsedRange_bounds (Option.some.inj h)

theorem rangeResponse_body {headOnly : Bool} {size off length : ℕ} {range : Option ParsedRange}
    (hb : ∀ st stop, range = some (.satisfiable st stop) → st ≤ stop ∧ stop < size)
    (h : (rangeResponse headOnly size range).body = some (off, length)) :
    Announces size (rangeResponse headOnly size range) off length := by
  cases headOnly with
  | true => rcases range with _ | _ | _ | _ <;> cases h
  | false =>
    match range, hb, h with
    | some (.satisfiable st stop), hb, h =>
      obtain ⟨hs, hst⟩ := hb st stop rfl
      obtain ⟨rfl, rfl⟩ := Prod.mk.inj (Option.some.inj h)
      exact .range st stop hs hst rfl rfl rfl
    | some .ignore, _, h | none, _, h =>
      obtain ⟨rfl, rfl⟩ := Prod.mk.inj (Option.some.inj h)
      exact .whole rfl rfl

/-- The body of a response reads the window that the response announces. -/
theorem sendOpenFile_body {req : Request} {file : FileMetadata} {off length : ℕ}
    (h : (sendOpenFile req file).body = some (off, length)) :
    Announces file.size (sendOpenFile req file) off length := by
  unfold sendOpenFile at h ⊢
  by_cases hf : file.isFile
  · rw [if_neg (not_not.mpr hf)] at h ⊢
    by_cases hv : file.hasValidators
    · rw [if_pos hv] at h ⊢
      cases hp : req.precondition with
      | some st =>
        rw [hp] at h
        cases h
      | none =>
        rw [hp] at h
        exact rangeResponse_body (fun _ _ => range_bounds) h
    · rw [if_neg hv] at h ⊢
      exact rangeResponse_body (fun _ _ => range_bounds) h
  · rw [if_pos hf] at h
    cases h

/-! ## What the body emits -/

section body

variable {β : Type} {content : List β} {answers : ℕ → ReadAnswer}

theorem length_readAt_le (content : List β) (off length n : ℕ) :
    (readAt content off length n).length ≤ length := by
  rw [readAt, List.length_take]
  omega

/-- What a read returns is the beginning of the window, and the rest is the window after it. -/
theorem readAt_append (content : List β) (off len n : ℕ) {remaining : ℕ} (hl : len ≤ remaining) :
    readAt content off len n ++
        (content.drop (off + (readAt content off len n).length)).take
          (remaining - (readAt content off len n).length) =
      (content.drop off).take remaining := by
  have hr : readAt content off len n =
      (content.drop off).take (readAt content off len n).length := by
    rw [readAt, List.length_take, List.take_eq_take_min]
  have hle := Nat.le_trans (length_readAt_le content off len n) hl
  generalize (readAt content off len n).length = count at hr hle ⊢
  rw [hr, ← List.drop_drop, ← List.take_add, Nat.add_sub_cancel' hle]

/-- For every pattern of short reads: all reads stay in the window, what is emitted is the
    beginning of the window, and all of it if the body ends without an error. -/
theorem gatedFileBody_spec (call off remaining : ℕ) :
    (∀ read ∈ (gatedFileBody content answers call off remaining).reads,
        off ≤ read.1 ∧ read.1 + read.2 ≤ off + remaining) ∧
      ((gatedFileBody content answers call off remaining).result = .ok () →
        (gatedFileBody content answers call off remaining).chunks.flatten =
          (content.drop off).take remaining) := by
  fun_induction gatedFileBody content answers call off remaining with
  | case1 => simp
  | case2 | case3 | case4 =>
    refine ⟨?_, fun h => (nomatch h)⟩
    simp only [List.mem_singleton, forall_eq]
    omega
  | case5 call off remaining hrm chunkSize n ha buffer hb rest ih =>
    have hc : chunkSize ≤ remaining := Nat.min_le_left _ _
    have hl : buffer.length ≤ chunkSize := length_readAt_le _ _ _ _
    obtain ⟨hrd, he⟩ := ih
    refine ⟨?_, fun hrs => ?_⟩
    · intro read hr
      rcases List.mem_cons.mp hr with rfl | hr
      · exact ⟨Nat.le_refl _, Nat.add_le_add_left hc _⟩
      · have hbn := hrd read hr
        omega
    · rw [List.flatten_cons, he hrs]
      exact readAt_append content off chunkSize n hc

/-- A body of which every read returns something, within the file, ends without an error. -/
theorem gatedFileBody_ends (ha : ∀ k, ∃ n, 0 < n ∧ answers k = .returned n)
    (call off rem : ℕ) (hw : off + rem ≤ content.length) :
    (gatedFileBody content answers call off rem).result = .ok () := by
  fun_induction gatedFileBody content answers call off rem with
  | case1 => rfl
  | case2 call _ _ _ _ han | case3 call _ _ _ _ han =>
    obtain ⟨n, _, hr⟩ := ha call
    rw [han] at hr
    cases hr
  | case4 call off rem hrm chunkSize n han buffer he =>
    obtain ⟨n', hp, hr⟩ := ha call
    rw [han, ReadAnswer.returned.injEq] at hr
    have hl : buffer.length = 0 := by rw [he]; rfl
    simp only [buffer, readAt, List.length_take, List.length_drop, chunkSize, bufSize] at hl
    omega
  | case5 call off rem hrm chunkSize n han buffer hb rest ih =>
    have hl : buffer.length ≤ chunkSize := length_readAt_le _ _ _ _
    exact ih (by omega)

end body

/-- The body of a download of an unchanged file. Whatever the headers and the short reads are,
    the window of the body is the announced one, no read leaves it, and a body that ends without
    an error has emitted exactly its bytes, as many as announced. If every read returns
    something, the body does end without an error. -/
theorem download_body_exact {β : Type} (request : Request) (hasValidators : Bool)
    (content : List β) (answers : ℕ → ReadAnswer) (offset length : ℕ)
    (h : (sendOpenFile request ⟨true, content.length, hasValidators⟩).body =
      some (offset, length)) :
    Announces content.length (sendOpenFile request ⟨true, content.length, hasValidators⟩)
        offset length ∧
      (∀ read ∈ (gatedFileBody content answers 0 offset length).reads,
        offset ≤ read.1 ∧ read.1 + read.2 ≤ offset + length) ∧
      ((gatedFileBody content answers 0 offset length).result = .ok () →
        (gatedFileBody content answers 0 offset length).chunks.flatten =
            (content.drop offset).take length ∧
          (gatedFileBody content answers 0 offset length).chunks.flatten.length = length) ∧
      ((∀ k, ∃ limit, 0 < limit ∧ answers k = .returned limit) →
        (gatedFileBody content answers 0 offset length).result = .ok ()) := by
  have ha : Announces content.length
      (sendOpenFile request ⟨true, content.length, hasValidators⟩) offset length :=
    sendOpenFile_body h
  have hw : offset + length ≤ content.length := by
    cases ha with
    | whole => omega
    | range => omega
  have hs := @gatedFileBody_spec β content answers 0 offset length
  refine ⟨ha, hs.1, fun hr => ?_, fun han =>
    gatedFileBody_ends han 0 offset length hw⟩
  refine ⟨hs.2 hr, ?_⟩
  rw [hs.2 hr, List.length_take, List.length_drop]
  omega

/-- Two bytes out of four, read one by one. -/
theorem download_body_exact_two :
    (gatedFileBody [10, 20, 30, 40] (fun _ => .returned 1) 0 1 2).chunks.flatten = [20, 30] := by
  have h := download_body_exact ⟨false, none, none, none, none, false, [some "bytes=1-2".toList]⟩
    true [10, 20, 30, 40] (fun _ => .returned 1) 1 2 (by decide)
  exact (h.2.2.1 (h.2.2.2 fun _ => ⟨1, by decide, rfl⟩)).1

end DufsRam.Download
