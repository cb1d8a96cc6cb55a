import DufsRam.Lib.Collect
import DufsRam.PathPolicy.InternalNames
import DufsRam.StateStore.Record

/-!
# Request paths

`parse_route` reads the path of a request, percent-encoded and in any spelling, and
`parse_browser_target` the path of a mutation in the body of a request, as it is
(`path_policy.rs`). Texts are lists of bytes; 47 is the slash, 46 the dot and 37 the percent sign.
The reserved paths of the platform come from another crate and are part of the policy.

Results:
* `percentDecode_encodeUri`: decoding takes back the encoding.
* `parseRoute_eq_some`, `parseBrowserTarget_eq_some`: the paths that come out.
* `parseRoute_encodeUri`, `parseBrowserTarget_cons`: both parsers on a path without empty parts and
  dots.
* `parsed_paths_agree`: well-formedness, agreement and uniqueness.
-/

namespace DufsRam.PathPolicy

open Text StateStore Collect

/-- A text. -/
abbrev Bytes := List UInt8

/-! ## Percent encoding -/

/-- The value of a hexadecimal digit. -/
def hexValue (byte : UInt8) : Option ℕ :=
  if 48 ≤ byte ∧ byte ≤ 57 then some (byte.toNat - 48)
  else if 65 ≤ byte ∧ byte ≤ 70 then some (byte.toNat - 55)
  else if 97 ≤ byte ∧ byte ≤ 102 then some (byte.toNat - 87)
  else none

/-- `percent_encoding::percent_decode`: a percent sign without two digits stands for itself. -/
def percentDecode : Bytes → Bytes
  | byte :: high :: low :: rest =>
    if byte = 37 then
      match hexValue high, hexValue low with
      | some h, some l => UInt8.ofNat (16 * h + l) :: percentDecode rest
      | _, _ => byte :: percentDecode (high :: low :: rest)
    else byte :: percentDecode (high :: low :: rest)
  | bytes => bytes

/-- The digit that `utf8_percent_encode` prints. -/
def upperHex (n : ℕ) : UInt8 := if n < 10 then UInt8.ofNat (48 + n) else UInt8.ofNat (55 + n)

/-- The bytes outside `URI_COMPONENT_ENCODE_SET` (`utils.rs`, lines 6-10). -/
def unreserved (byte : UInt8) : Bool :=
  decide (48 ≤ byte ∧ byte ≤ 57) || decide (65 ≤ byte ∧ byte ≤ 90) ||
    decide (97 ≤ byte ∧ byte ≤ 122) || decide (byte ∈ ascii "-._~")

/-- A byte of `utf8_percent_encode`. -/
def encodeByte (byte : UInt8) : Bytes :=
  if unreserved byte then [byte] else [37, upperHex (byte.toNat / 16), upperHex (byte.toNat % 16)]

/-- `encode_uri` (`utils.rs`, lines 12-17). -/
def encodeUri (v : Bytes) : Bytes := [47].intercalate ((v.splitOn 47).map (·.flatMap encodeByte))

/-- `str::from_utf8`. -/
def utf8 (bytes : Bytes) : Bool := (ByteArray.mk bytes.toArray).validateUTF8

/-- `decode_uri` (`utils.rs`, lines 19-23). -/
def decodeUri (v : Bytes) : Option Bytes :=
  if utf8 (percentDecode v) then some (percentDecode v) else none

/-! ## Parsers -/

/-- `PathPolicy` (`path_policy.rs`, lines 56-60) and `PLATFORM_RESERVED_PATHS`. -/
structure Policy where
  root : List Component
  assetsComponent : Bytes
  platformReservedPaths : List Bytes

namespace Policy

variable (policy : Policy)

/-- The path is `root` or below it. -/
def isBelow (root relative : Bytes) : Bool :=
  decide (relative = root) || (relative.dropPrefix? root).any fun tail => tail.head? = some 47

/-- `is_platform_path` (lines 167-184). -/
def isPlatformPath (relative : Bytes) : Bool :=
  isBelow (ascii "api/v1/file-tags") relative ||
    policy.platformReservedPaths.any fun root => isBelow (root.dropWhile (· = 47)) relative

/-- `is_reserved_component` (lines 161-165). -/
def isReservedComponent (component : Bytes) : Bool :=
  decide (component = ascii "__xczs__") || decide (component = policy.assetsComponent) ||
    policy.isPlatformPath component

/-- The condition of lines 96-100: the path is in a reserved namespace. -/
def isReserved (normalized : Bytes) : Bool :=
  policy.isPlatformPath normalized || (normalized.splitOn 47).head?.any policy.isReservedComponent

/-- A component that `parse_route` takes (lines 82-89). -/
def routeComponent : Component → Option Bytes
  | .normal value => if value.length ≤ 255 && !isInternalName value then some value else none
  | _ => none

/-- `parse_route` (lines 74-106). -/
def parseRoute (rawPath : Bytes) : Option Bytes := do
  let path ← decodeUri rawPath
  if 0 ∈ path then none
  else
    let parts ← (PathBuf.components ⟨trimWhile (· = 47) path⟩).mapM routeComponent
    let normalized := [47].intercalate parts
    if 4095 < normalized.length then none
    else if policy.isReserved normalized && rawPath ≠ 47 :: encodeUri normalized then none
    else some normalized

/-- A component that `parse_browser_target` takes (lines 123-131). -/
def browserComponent (component : Bytes × ℕ) : Bool :=
  component.1 ≠ [] && component.1 ≠ [46] && component.1 ≠ [46, 46] && component.1.length ≤ 255 &&
    !isInternalName component.1 && !(component.2 = 0 && policy.isReservedComponent component.1)

/-- `parse_browser_target` (lines 111-135). -/
def parseBrowserTarget (value : Bytes) : Option (List Component) :=
  match value with
  | [] => none
  | slash :: relative =>
    if slash ≠ 47 then none
    else if relative = [] ∨ policy.isPlatformPath relative ∨ 4095 < relative.length ∨
        0 ∈ relative then none
    else
      ((relative.splitOn 47).zipIdx.mapM fun component =>
        if policy.browserComponent component then some (Component.normal component.1)
        else none).map (policy.root ++ ·)

/-- `Path::join`: an absolute path replaces the first one, and a dot at the start counts no more. -/
def join (root : List Component) (path : Bytes) : List Component :=
  if path.head? = some 47 then PathBuf.components ⟨path⟩
  else root ++ (PathBuf.components ⟨path⟩).filter (· ≠ .curDir)

/-- `resolve_route` (lines 149-155). -/
def resolveRoute (path : Bytes) : List Component :=
  if path = [] then policy.root else join policy.root path

end Policy

/-! ## Decoding takes back the encoding -/

theorem hexValue_upperHex {n : ℕ} (h : n < 16) : hexValue (upperHex n) = some n := by
  have ha : ∀ i : Fin 16, hexValue (upperHex i) = some i.val := by decide
  exact ha ⟨n, h⟩

theorem percentDecode_cons {byte : UInt8} (h : byte ≠ 37) (rest : Bytes) :
    percentDecode (byte :: rest) = byte :: percentDecode rest := by
  -- Only a percent sign looks ahead; the two short lists are the last equation.
  obtain _ | ⟨hi, _ | ⟨low, rest⟩⟩ := rest
  · rfl
  · rfl
  · rw [percentDecode, if_neg h]

theorem percentDecode_encodeByte (byte : UInt8) (rest : Bytes) :
    percentDecode (encodeByte byte ++ rest) = byte :: percentDecode rest := by
  unfold encodeByte
  split
  · next hp =>
    refine percentDecode_cons ?_ rest
    rintro rfl
    exact absurd hp (by decide)
  · have hlt := byte.toNat_lt
    show percentDecode (37 :: _ :: _ :: rest) = _
    rw [percentDecode, if_pos rfl, hexValue_upperHex (by omega), hexValue_upperHex (by omega)]
    show UInt8.ofNat (16 * (byte.toNat / 16) + byte.toNat % 16) :: _ = _
    rw [Nat.div_add_mod, UInt8.ofNat_toNat]

theorem percentDecode_encodeUri (v : Bytes) : percentDecode (encodeUri v) = v := by
  rw [encodeUri, intercalate_map_splitOn]
  induction v with
  | nil => rfl
  | cons byte v ih =>
    rw [List.flatMap_cons]
    split
    · next hs =>
      rw [List.singleton_append, percentDecode_cons (by decide), ih, hs]
    · rw [percentDecode_encodeByte, ih]

/-- A slash in front keeps a text a text. -/
theorem utf8_slash {b : Bytes} (h : utf8 b = true) : utf8 (47 :: b) = true := by
  rw [utf8, ByteArray.validateUTF8_eq_true_iff] at h ⊢
  have hs := ("/" ++ String.ofByteArray _ h).isValidUTF8
  convert hs using 1
  apply ByteArray.ext
  rfl

/-! ## Names and components -/

/-- A name that is one normal component. -/
structure Plain (name : Bytes) : Prop where
  ne_nil : name ≠ []
  ne_dot : name ≠ [46]
  ne_dots : name ≠ [46, 46]
  not_slash : 47 ∉ name

/-- The parts of a path that a parser may let through. -/
structure Lexical (parts : List Bytes) : Prop where
  plain : ∀ part ∈ parts, Plain part
  small : ∀ part ∈ parts, part.length ≤ 255
  external : ∀ part ∈ parts, isInternalName part = false
  noNul : ∀ part ∈ parts, 0 ∉ part
  total : ([47].intercalate parts).length ≤ 4095

theorem Component.ofPart_plain {name : Bytes} (h : Plain name) :
    Component.ofPart name = some (.normal name) := by
  rw [Component.ofPart, if_neg (not_or.mpr ⟨h.ne_nil, h.ne_dot⟩), if_neg h.ne_dots]

/-- The normal components of a path are parts of it. -/
theorem plain_of_normal_mem {path name : Bytes}
    (h : .normal name ∈ PathBuf.components ⟨path⟩) : Plain name ∧ name ⊆ path := by
  have hst : Component.normal name ∈ (path.splitOn 47).filterMap Component.ofPart := by
    refine (List.mem_append.mp h).resolve_left fun hm => ?_
    split_ifs at hm <;> simp at hm
  obtain ⟨part, hp, hn⟩ := List.mem_filterMap.mp hst
  unfold Component.ofPart at hn
  split_ifs at hn with hs hd
  · simp at hn
  · obtain rfl : part = name := by simpa using hn
    obtain ⟨hsl, hsb⟩ := of_mem_splitOn hp
    exact ⟨⟨fun h => hs (.inl h), fun h => hs (.inr h), hd, hsl⟩, hsb⟩

theorem splitOn_join {parts : List Bytes} (hp : ∀ part ∈ parts, Plain part)
    (hne : parts ≠ []) : ([47].intercalate parts).splitOn 47 = parts :=
  List.splitOn_intercalate 47 (fun part hpr => (hp part hpr).not_slash) hne

/-- A path whose first part is not empty is relative. -/
theorem head?_ne_slash {path : Bytes} (h : (path.splitOn 47).head? ≠ some []) :
    path.head? ≠ some 47 := by
  cases path with
  | nil => simp
  | cons byte path =>
    rw [List.head?_cons, ne_eq, Option.some_inj]
    rintro rfl
    simp [List.splitOn_cons_eq_if_modifyHead] at h

theorem components_of_parts {path : Bytes} (h : ∀ part ∈ path.splitOn 47, part ≠ [] ∧ part ≠ [46]) :
    PathBuf.components ⟨path⟩ = (path.splitOn 47).filterMap Component.ofPart := by
  have hh : ∀ part, part = [] ∨ part = [46] → (path.splitOn 47).head? ≠ some part := by
    intro part hp hs
    obtain ⟨hn, hd⟩ := h part (List.mem_of_head? hs)
    exact hp.elim hn hd
  show (if _ then _ else if _ then _ else _) ++ _ = _
  rw [if_neg (head?_ne_slash (hh [] (.inl rfl))), if_neg (hh [46] (.inr rfl)), List.nil_append]

theorem filterMap_ofPart_plain {ps : List Bytes} (hp : ∀ part ∈ ps, Plain part) :
    ps.filterMap Component.ofPart = ps.map .normal := by
  rw [← List.filterMap_eq_map]
  exact List.filterMap_congr fun part hpr => Component.ofPart_plain (hp part hpr)

namespace Policy

variable {policy : Policy}

/-- The path of plain parts leads below the root. -/
theorem resolveRoute_join {ps : List Bytes} (hp : ∀ part ∈ ps, Plain part) :
    policy.resolveRoute ([47].intercalate ps) = policy.root ++ ps.map .normal := by
  unfold resolveRoute
  by_cases hne : ps = []
  · simp [hne]
  have hs := splitOn_join hp hne
  have hpr : ∀ part ∈ ([47].intercalate ps).splitOn 47, part ≠ [] ∧ part ≠ [46] := by
    rw [hs]
    exact fun part hpa => ⟨(hp part hpa).ne_nil, (hp part hpa).ne_dot⟩
  rw [if_neg, join, if_neg, components_of_parts hpr, hs, filterMap_ofPart_plain hp,
    List.filter_eq_self.mpr]
  · simp
  · exact head?_ne_slash fun hn => (hpr [] (List.mem_of_head? hn)).1 rfl
  · intro hn
    rw [hn, List.splitOn_nil] at hpr
    exact (hpr [] List.mem_cons_self).1 rfl

/-! ## What the parsers accept -/

theorem mapM_routeComponent {comps : List Component} {parts : List Bytes}
    (h : comps.mapM routeComponent = some parts) :
    comps = parts.map .normal ∧
      ∀ part ∈ parts, part.length ≤ 255 ∧ isInternalName part = false := by
  induction comps generalizing parts with
  | nil =>
    obtain rfl : [] = parts := by simpa using h
    simp
  | cons comp comps ih =>
    rw [List.mapM_cons] at h
    obtain ⟨v, hv, h⟩ := Option.bind_eq_some_iff.mp h
    obtain ⟨rest, hr, h⟩ := Option.bind_eq_some_iff.mp h
    obtain rfl : v :: rest = parts := by simpa using h
    obtain ⟨rfl, hp⟩ := ih hr
    unfold routeComponent at hv
    split at hv
    · split_ifs at hv with hok
      obtain rfl := Option.some_inj.mp hv
      simpa using ⟨by simpa using hok, hp⟩
    · simp at hv

/-- A path that `parse_route` returns, and the spelling that a reserved one has. -/
theorem parseRoute_eq_some {raw path : Bytes} (h : policy.parseRoute raw = some path) :
    (∃ ps, Lexical ps ∧ path = [47].intercalate ps) ∧
      (policy.isReserved path = true → raw = 47 :: encodeUri path) := by
  obtain ⟨decoded, -, h⟩ := Option.bind_eq_some_iff.mp h
  split_ifs at h with hn
  obtain ⟨ps, hpr, h⟩ := Option.bind_eq_some_iff.mp h
  simp only at h
  split_ifs at h with hl hr
  obtain rfl := Option.some_inj.mp h
  obtain ⟨hc, hch⟩ := mapM_routeComponent hpr
  have hpl : ∀ part ∈ ps, Plain part ∧ part ⊆ trimWhile (· = 47) decoded := by
    intro part hp
    exact plain_of_normal_mem (hc ▸ List.mem_map_of_mem hp)
  constructor
  · refine ⟨ps, ⟨fun part hp => (hpl part hp).1, fun part hp => (hch part hp).1,
      fun part hp => (hch part hp).2, fun part hp hz => hn ?_, by omega⟩, rfl⟩
    exact mem_of_mem_trimWhile ((hpl part hp).2 hz)
  · intro hpt
    simpa [hpt] using hr

/-- The loop of `parse_browser_target`. -/
theorem mapM_browserComponent (policy : Policy) (ps : List Bytes) :
    (ps.zipIdx.mapM fun comp => if policy.browserComponent comp
      then some (Component.normal comp.1) else none) =
      if ps.zipIdx.all policy.browserComponent then some (ps.map .normal) else none := by
  have hn : ps.zipIdx.map (fun comp => Component.normal comp.1) = ps.map .normal := by
    conv_rhs => rw [← List.zipIdx_map_fst 0 ps, List.map_map]
    rfl
  rw [mapM_ite, hn]

/-- A target that `parse_browser_target` returns. -/
theorem parseBrowserTarget_eq_some {v : Bytes} {path : List Component}
    (h : policy.parseBrowserTarget v = some path) :
    ∃ ps, Lexical ps ∧ v = 47 :: [47].intercalate ps ∧
      path = policy.root ++ ps.map .normal := by
  unfold parseBrowserTarget at h
  split at h
  · simp at h
  next slash rel =>
  split_ifs at h with hs hb
  rw [mapM_browserComponent, Option.map_eq_some_iff] at h
  obtain ⟨ns, h, rfl⟩ := h
  split_ifs at h with ha
  simp only [not_or] at hb
  have hc : ∀ part ∈ rel.splitOn 47, Plain part ∧ part.length ≤ 255 ∧
      isInternalName part = false := by
    intro part hp
    obtain ⟨i, hi⟩ := List.getElem?_of_mem hp
    have hok := List.all_eq_true.mp ha (part, i) (List.mk_mem_zipIdx_iff_getElem?.mpr hi)
    simp only [browserComponent, Bool.and_eq_true, decide_eq_true_eq, ne_eq,
      Bool.not_eq_true'] at hok
    obtain ⟨⟨⟨⟨⟨hn, hdt⟩, hd⟩, hl⟩, hin⟩, -⟩ := hok
    exact ⟨⟨hn, hdt, hd, (of_mem_splitOn hp).1⟩, hl, hin⟩
  have hj : [47].intercalate (rel.splitOn 47) = rel := List.intercalate_splitOn 47
  refine ⟨rel.splitOn 47, ⟨fun part hp => (hc part hp).1,
    fun part hp => (hc part hp).2.1, fun part hp => (hc part hp).2.2,
    fun part hp hz => hb.2.2.2 ((of_mem_splitOn hp).2 hz), ?_⟩, ?_, ?_⟩
  · rw [hj]
    omega
  · rw [hj, not_not.mp hs]
  · rw [Option.some_inj.mp h]

/-- The test that both parsers make on a part that is not empty and not a dot. -/
def accepts (part : Bytes) : Bool :=
  part ≠ [46, 46] && part.length ≤ 255 && !isInternalName part

theorem mapM_filterMap_ofPart {ps : List Bytes} (h : ∀ part ∈ ps, part ≠ [] ∧ part ≠ [46]) :
    (ps.filterMap Component.ofPart).mapM routeComponent =
      if ps.all accepts then some ps else none := by
  have hp : ps.filterMap Component.ofPart =
      ps.map fun part => if part = [46, 46] then .parentDir else .normal part := by
    rw [← List.filterMap_eq_map]
    refine List.filterMap_congr fun part hp => ?_
    rw [Component.ofPart, if_neg (not_or.mpr (h part hp)), ← apply_ite some]
    rfl
  have hc : (routeComponent ∘ fun part : Bytes => if part = [46, 46] then .parentDir
      else .normal part) = fun part => if accepts part then some (id part) else none := by
    funext part
    by_cases hd : part = [46, 46]
    · simp [routeComponent, accepts, hd]
    · simp [routeComponent, accepts, hd]
  rw [hp, List.mapM_map, hc, mapM_ite, List.map_id]

/-- `parse_route` on an encoded path that has no empty part and no dot. -/
theorem parseRoute_encodeUri {rel : Bytes} (hu8 : utf8 rel = true)
    (hr : policy.isReserved rel = false)
    (hp : ∀ part ∈ rel.splitOn 47, part ≠ [] ∧ part ≠ [46]) :
    policy.parseRoute (47 :: encodeUri rel) =
      if 0 ∈ rel ∨ 4095 < rel.length ∨ ¬(rel.splitOn 47).all accepts then none else some rel := by
  have hd : decodeUri (47 :: encodeUri rel) = some (47 :: rel) := by
    rw [decodeUri, percentDecode_cons (by decide), percentDecode_encodeUri, if_pos (utf8_slash hu8)]
  have ht : trimWhile (· = 47) (47 :: rel) = rel := by
    refine trimWhile_cons rfl (fun byte hb => ?_) fun byte hb => ?_
    · refine decide_eq_false fun hs => ?_
      refine head?_ne_slash (fun hnl => (hp [] (List.mem_of_head? hnl)).1 rfl) ?_
      exact hs ▸ hb
    refine decide_eq_false fun hs => ?_
    -- A slash at the end leaves an empty last part.
    obtain ⟨bef, rfl⟩ := List.getLast?_eq_some_iff.mp hb
    refine (hp [] ?_).1 rfl
    rw [hs, List.splitOn_append_cons_self]
    simp
  unfold parseRoute
  rw [hd]
  simp only [Option.bind_eq_bind, Option.bind_some, ht, components_of_parts hp,
    mapM_filterMap_ofPart hp]
  by_cases hn : (0 : UInt8) ∈ rel
  · simp [hn]
  cases ha : (rel.splitOn 47).all accepts with
  | false => simp [hn]
  | true => simp [hn, List.intercalate_splitOn, hr]

theorem all_browserComponent {ps : List Bytes} (h : ∀ part ∈ ps, part ≠ [] ∧ part ≠ [46])
    (hh : ps.head?.any policy.isReservedComponent = false) :
    ps.zipIdx.all policy.browserComponent = ps.all accepts := by
  have hs : ∀ comp ∈ ps.zipIdx, policy.browserComponent comp = accepts comp.1 := by
    rintro ⟨part, i⟩ hm
    rw [List.mk_mem_zipIdx_iff_getElem?] at hm
    obtain ⟨hn, hd⟩ := h part (List.mem_of_getElem? hm)
    cases i with
    | zero =>
      rw [← List.head?_eq_getElem?] at hm
      have hf : policy.isReservedComponent part = false := by simpa [hm] using hh
      simp [browserComponent, accepts, hn, hd, hf]
    | succ i => simp [browserComponent, accepts, hn, hd]
  calc ps.zipIdx.all policy.browserComponent
      = ps.zipIdx.all (accepts ∘ Prod.fst) := by
        rw [Bool.eq_iff_iff, List.all_eq_true, List.all_eq_true]
        exact forall₂_congr fun comp hm => by rw [hs comp hm, Function.comp_apply]
    _ = (ps.zipIdx.map Prod.fst).all accepts := List.all_map.symm
    _ = ps.all accepts := by rw [List.zipIdx_map_fst]

/-- `parse_browser_target` on the same path. -/
theorem parseBrowserTarget_cons {rel : Bytes} (hr : policy.isReserved rel = false)
    (hp : ∀ part ∈ rel.splitOn 47, part ≠ [] ∧ part ≠ [46]) :
    policy.parseBrowserTarget (47 :: rel) =
      if 0 ∈ rel ∨ 4095 < rel.length ∨ ¬(rel.splitOn 47).all accepts then none
      else some (policy.root ++ (rel.splitOn 47).map .normal) := by
  obtain ⟨hpl, hh⟩ := Bool.or_eq_false_iff.mp hr
  have hne : rel ≠ [] := by
    rintro rfl
    exact (hp [] List.mem_cons_self).1 rfl
  unfold parseBrowserTarget
  simp only [mapM_browserComponent, all_browserComponent hp hh, hpl, hne, ne_eq,
    not_true_eq_false, if_false, Bool.false_eq_true, false_or]
  by_cases hn : (0 : UInt8) ∈ rel
  · simp [hn]
  cases ha : (rel.splitOn 47).all accepts with
  | false => simp [hn]
  | true => simp [hn]

/-- Both parsers let only lexical paths through; they agree on every path outside the reserved
    namespaces that has no empty part and no dot; and a reserved path has one spelling. -/
theorem parsed_paths_agree (policy : Policy) : (∀ raw path, policy.parseRoute raw = some path →
      ∃ parts, Lexical parts ∧ path = [47].intercalate parts ∧
        policy.resolveRoute path = policy.root ++ parts.map .normal) ∧
    (∀ value path, policy.parseBrowserTarget value = some path →
      ∃ parts, Lexical parts ∧ value = 47 :: [47].intercalate parts ∧
        path = policy.root ++ parts.map .normal) ∧
    (∀ rel, utf8 rel = true → policy.isReserved rel = false →
      (∀ part ∈ rel.splitOn 47, part ≠ [] ∧ part ≠ [46]) →
      (policy.parseRoute (47 :: encodeUri rel)).map policy.resolveRoute =
        policy.parseBrowserTarget (47 :: rel)) ∧
    ∀ raw raw' path, policy.isReserved path = true → policy.parseRoute raw = some path →
      policy.parseRoute raw' = some path → raw = raw' := by
  refine ⟨fun raw path h => ?_, fun value path h => parseBrowserTarget_eq_some h,
    fun rel hu8 hr hp => ?_, fun raw raw' path hr h h' => ?_⟩
  · obtain ⟨⟨parts, hp, hpt⟩, -⟩ := parseRoute_eq_some h
    exact ⟨parts, hp, hpt, hpt ▸ resolveRoute_join hp.plain⟩
  · rw [parseRoute_encodeUri hu8 hr hp, parseBrowserTarget_cons hr hp]
    split
    · rfl
    next hok =>
    simp only [not_or, not_not, List.all_eq_true] at hok
    have hpl : ∀ part ∈ rel.splitOn 47, Plain part := by
      intro part hpr
      have ha := hok.2.2 part hpr
      simp only [accepts, Bool.and_eq_true, decide_eq_true_eq] at ha
      exact ⟨(hp part hpr).1, (hp part hpr).2, ha.1.1, (of_mem_splitOn hpr).1⟩
    have hrs : policy.resolveRoute _ = _ := resolveRoute_join hpl
    rw [List.intercalate_splitOn] at hrs
    rw [Option.map_some, hrs]
  · rw [(parseRoute_eq_some h).2 hr, (parseRoute_eq_some h').2 hr]

example : parseRoute ⟨[], [], []⟩ (ascii "//a%2Eb/./c") = some (ascii "a.b/c") := by decide +kernel

end Policy

end DufsRam.PathPolicy
