import Mathlib.Data.Nat.Digits.Defs
import SuperH.Proofs.Contents
import SuperH.Proofs.Sizes

/-!
# Writing data

A data stream only grows. A directive adds its bytes, after a zero byte where words and longs would
start at an odd offset, and one that cannot be read leaves the stream as it was. So whatever
directives follow, each value of a list is found at its place in the stream.
-/
namespace SuperH

private theorem Directive.one_lt_width {d : Directive} : 1 < d.width ↔ d = .word ∨ d = .long := by
  cases d <;> simp [width]

structure DataCall where
  directive : Directive
  args : String
  line : Nat
deriving DecidableEq

namespace DataCall

def run (c : DataCall) (s : DataSection) : Except Error Nat × DataSection :=
  (DataSection.emit c.directive c.args c.line).run.run s

/-- The byte that aligns words and longs. -/
def padding (c : DataCall) (s : DataSection) : List SourceByte :=
  if (c.directive = .word ∨ c.directive = .long) ∧ s.offset % 2 = 1 then [⟨0, c.line⟩] else []

def pieces (c : DataCall) : List String :=
  (c.args.toList.splitOn ',').map String.ofList

/-! ## The bytes of a call -/

theorem run_align (line : Nat) (s : DataSection) :
    (DataSection.align line).run s =
      ((), if s.offset % 2 = 1 then ⟨s.bytes ++ [⟨0, line⟩]⟩ else s) := by
  have hget : (DataSection.align line).run s =
      (if s.offset % 2 = 1 then DataSection.push [0] line else pure ()).run s := rfl
  rw [hget]
  split <;> rfl

private theorem run_of_error {c : DataCall} {e : Error} (h : c.directive.payload c.args = .error e)
    (s : DataSection) : c.run s = (.error e, s) := by
  rw [run, DataSection.emit, h]
  rfl

private theorem run_of_ok {c : DataCall} {payload : List UInt8}
    (h : c.directive.payload c.args = .ok payload) (s : DataSection) :
    c.run s = (.ok (s.bytes ++ c.padding s).length,
      ⟨s.bytes ++ c.padding s ++ payload.map (⟨·, c.line⟩)⟩) := by
  have hrun : c.run s =
      (.ok (if 1 < c.directive.width then ((DataSection.align c.line).run s).2 else s).offset,
        ⟨(if 1 < c.directive.width then ((DataSection.align c.line).run s).2 else s).bytes ++
          payload.map (⟨·, c.line⟩)⟩) := by
    rw [run, DataSection.emit, h]
    split <;> rfl
  have haligned : (if 1 < c.directive.width then ((DataSection.align c.line).run s).2 else s) =
      ⟨s.bytes ++ c.padding s⟩ := by
    simp only [run_align, padding, Directive.one_lt_width]
    by_cases hw : c.directive = .word ∨ c.directive = .long
    · by_cases hodd : s.offset % 2 = 1
      · simp [hw, hodd]
      · simp [hodd]
    · simp [hw]
  rw [hrun, haligned]
  rfl

theorem run_eq_ok {c : DataCall} {s : DataSection} {start : Nat} (h : (c.run s).1 = .ok start) :
    ∃ payload, c.directive.payload c.args = .ok payload ∧
      start = (s.bytes ++ c.padding s).length ∧
      (c.run s).2.bytes = s.bytes ++ c.padding s ++ payload.map (⟨·, c.line⟩) := by
  cases hpayload : c.directive.payload c.args with
  | error e =>
    rw [run_of_error hpayload] at h
    cases h
  | ok payload =>
    rw [run_of_ok hpayload] at h ⊢
    cases h
    exact ⟨payload, rfl, rfl, rfl⟩

theorem run_eq_error {c : DataCall} {s : DataSection} {e : Error} (h : (c.run s).1 = .error e) :
    (c.run s).2 = s := by
  cases hpayload : c.directive.payload c.args with
  | error e => rw [run_of_error hpayload]
  | ok payload =>
    rw [run_of_ok hpayload] at h
    cases h

theorem exists_run_eq_ok {c : DataCall} {s : DataSection} :
    (∃ start, (c.run s).1 = .ok start) ↔ ∃ payload, c.directive.payload c.args = .ok payload := by
  constructor
  · rintro ⟨start, h⟩
    obtain ⟨payload, hpayload, _⟩ := run_eq_ok h
    exact ⟨payload, hpayload⟩
  · rintro ⟨payload, h⟩
    exact ⟨_, congrArg Prod.fst (run_of_ok h s)⟩

private theorem even_start {c : DataCall} (h : c.directive = .word ∨ c.directive = .long)
    (s : DataSection) : (s.bytes ++ c.padding s).length % 2 = 0 := by
  rw [List.length_append, padding, ← DataSection.offset]
  by_cases hodd : s.offset % 2 = 1
  · rw [if_pos ⟨h, hodd⟩, List.length_singleton]
    omega
  · rw [if_neg (fun hpad => hodd hpad.2), List.length_nil]
    omega

end DataCall

/-! ## Lists of values -/

namespace Text

theorem splitOn_eq (sep : Char) (s : List Char) : splitOn sep s = s.splitOn sep := by
  have hhead (c : Char) {pieces : List (List Char)} (h : pieces ≠ []) :
      consHead c pieces = pieces.modifyHead (c :: ·) := by
    cases pieces with
    | nil => exact absurd rfl h
    | cons piece pieces => rfl
  induction s with
  | nil => simp [splitOn]
  | cons c s ih =>
    rw [splitOn, hhead c (splitOn_ne_nil sep s), ih, List.splitOn, List.splitOn,
      List.splitOnP_cons_eq_if_modifyHead]
    simp

end Text

private theorem flatten_split {α : Type} {width : Nat} {xs : List (List α)}
    (h : ∀ x ∈ xs, x.length = width) {i : Nat} {x : List α} (hx : xs[i]? = some x) :
    ∃ before after, xs.flatten = before ++ x ++ after ∧ before.length = width * i := by
  induction xs generalizing i with
  | nil => cases hx
  | cons y ys ih =>
    obtain ⟨hy, hys⟩ := List.forall_mem_cons.mp h
    cases i with
    | zero =>
      cases hx
      exact ⟨[], ys.flatten, rfl, rfl⟩
    | succ i =>
      obtain ⟨before, after, hflatten, hlength⟩ := ih hys hx
      refine ⟨y ++ before, after, by simp [hflatten], ?_⟩
      rw [List.length_append, hy, hlength, Nat.mul_succ, Nat.add_comm]

namespace Literal

private theorem lowBytes_zero (value : Int) : lowBytes value 0 = [] :=
  rfl

private theorem lowBytes_succ (value : Int) (width : Nat) :
    lowBytes value (width + 1) =
      UInt8.ofNat (value / 256 ^ width % 256).toNat :: lowBytes value width :=
  rfl

/-- The low bytes of a number, read as big-endian digits, are the number up to a power of two. -/
theorem ofDigits_lowBytes (value : Int) (width : Nat) :
    ((Nat.ofDigits 256 ((lowBytes value width).map UInt8.toNat).reverse : Nat) : Int) =
      value % 256 ^ width := by
  induction width with
  | zero => simp [lowBytes_zero]
  | succ width ih =>
    have hdigit : (((UInt8.ofNat (value / 256 ^ width % 256).toNat).toNat : Nat) : Int) =
        value / 256 ^ width % 256 := by
      rw [UInt8.toNat_ofNat']
      omega
    have hpow : (0 : Int) ≤ 256 ^ width := by positivity
    rw [lowBytes_succ, List.map_cons, List.reverse_cons, Nat.ofDigits_append, List.length_reverse,
      List.length_map, length_lowBytes, Nat.ofDigits_singleton, Nat.cast_add, ih, Nat.cast_mul,
      hdigit, pow_succ]
    push_cast
    simp only [Int.emod_def, ← Int.ediv_ediv_of_nonneg hpow]
    ring

theorem bigEndian_eq_ok {value : Int} {width : Nat} {bytes : List UInt8} :
    bigEndian value width = .ok bytes ↔ Fits value (8 * width) ∧ bytes = lowBytes value width := by
  unfold bigEndian
  split
  · simp [*, eq_comm]
  · simp [*]

theorem bigEndian_eq_error {value : Int} {width : Nat} {e : Error} :
    bigEndian value width = .error e ↔
      ¬ Fits value (8 * width) ∧ e = .outOfRange value (8 * width) := by
  unfold bigEndian
  split
  · simp [*]
  · simp [*, eq_comm]

end Literal

namespace Directive

def takesValues : Directive → Bool
  | .byte | .word | .long => true
  | .ascii | .asciiz => false

/-- The values of a list take so many bytes each. -/
def HasWidth (d : Directive) (width : Nat) : Prop :=
  d = .byte ∧ width = 1 ∨ d = .word ∧ width = 2 ∨ d = .long ∧ width = 4

theorem hasWidth_iff {d : Directive} {width : Nat} :
    d.HasWidth width ↔ d.takesValues = true ∧ d.width = width := by
  cases d <;> simp [HasWidth, takesValues, Directive.width, eq_comm]

theorem payload_of_takesValues {d : Directive} (h : d.takesValues = true) (args : String) :
    d.payload args = values d.width args := by
  cases d with
  | byte => rfl
  | word => rfl
  | long => rfl
  | ascii => cases h
  | asciiz => cases h

def valueBytes (width : Nat) (piece : List Char) : Except Error (List UInt8) := do
  Literal.bigEndian (← Literal.value (String.ofList piece)) width

theorem valueBytes_eq_ok {width : Nat} {piece : List Char} {bytes : List UInt8} :
    valueBytes width piece = .ok bytes ↔ ∃ v, Literal.value (String.ofList piece) = .ok v ∧
      Fits v (8 * width) ∧ bytes = Literal.lowBytes v width := by
  simp [valueBytes, bind_eq_ok, Literal.bigEndian_eq_ok]

theorem values_eq_ok {width : Nat} {args : String} {bytes : List UInt8} :
    values width args = .ok bytes ↔ (∃ c ∈ args.toList, Text.isBlank c = false) ∧
      ∃ items, (args.toList.splitOn ',').mapM (valueBytes width) = .ok items ∧
        bytes = items.flatten := by
  have hblank : Text.trim args.toList = [] ↔ ¬ ∃ c ∈ args.toList, Text.isBlank c = false := by
    simp [Text.trim_eq_nil]
  have hsteps : values width args = if Text.trim args.toList = [] then
      .error (.malformed .noValues) else do
        let items ← (args.toList.splitOn ',').mapM (valueBytes width)
        return items.flatten := by
    rw [← Text.splitOn_eq]
    rfl
  rw [hsteps]
  by_cases h : ∃ c ∈ args.toList, Text.isBlank c = false
  · rw [if_neg (fun htrim => hblank.mp htrim h), bind_eq_ok]
    constructor
    · rintro ⟨items, hitems, hbytes⟩
      cases hbytes
      exact ⟨h, items, hitems, rfl⟩
    · rintro ⟨_, items, hitems, rfl⟩
      exact ⟨items, hitems, rfl⟩
  · rw [if_pos (hblank.mpr h)]
    simp [h]

theorem exists_values_eq_ok {width : Nat} {args : String} :
    (∃ bytes, values width args = .ok bytes) ↔ (∃ c ∈ args.toList, Text.isBlank c = false) ∧
      ∀ piece ∈ args.toList.splitOn ',', ∃ v, Literal.value (String.ofList piece) = .ok v ∧
        Fits v (8 * width) := by
  have hpieces : (∃ items, (args.toList.splitOn ',').mapM (valueBytes width) = .ok items) ↔ _ :=
    exists_mapM_eq_ok
  simp only [valueBytes_eq_ok] at hpieces
  constructor
  · rintro ⟨bytes, h⟩
    obtain ⟨hblank, items, hitems, _⟩ := values_eq_ok.mp h
    refine ⟨hblank, ?_⟩
    intro piece hpiece
    obtain ⟨_, v, hv, hfits, _⟩ := hpieces.mp ⟨items, hitems⟩ piece hpiece
    exact ⟨v, hv, hfits⟩
  · rintro ⟨hblank, h⟩
    obtain ⟨items, hitems⟩ := hpieces.mpr fun piece hpiece => by
      obtain ⟨v, hv, hfits⟩ := h piece hpiece
      exact ⟨_, v, hv, hfits, rfl⟩
    exact ⟨_, values_eq_ok.mpr ⟨hblank, items, hitems, rfl⟩⟩

private theorem bytes_of_values {width : Nat} {args : String} {bytes : List UInt8}
    (h : values width args = .ok bytes) :
    bytes.length = width * (args.toList.splitOn ',').length ∧
      ∀ i piece v, (args.toList.splitOn ',')[i]? = some piece →
        Literal.value (String.ofList piece) = .ok v →
        ∃ before after, bytes = before ++ Literal.lowBytes v width ++ after ∧
          before.length = width * i := by
  obtain ⟨_, items, hitems, rfl⟩ := values_eq_ok.mp h
  have hwidth : ∀ x ∈ items, x.length = width := by
    intro x hx
    obtain ⟨piece, _, hpiece⟩ := exists_of_mem_mapM hitems hx
    obtain ⟨v, _, _, rfl⟩ := valueBytes_eq_ok.mp hpiece
    exact Literal.length_lowBytes v width
  have hcount := length_mapM hitems
  constructor
  · rw [List.length_flatten, List.map_eq_replicate_iff.mpr hwidth, List.sum_replicate_nat, hcount,
      Nat.mul_comm]
  · intro i piece v hpiece hv
    have hi : i < items.length := by
      rw [hcount]
      exact (List.getElem?_eq_some_iff.mp hpiece).1
    have hitem := List.getElem?_eq_getElem hi
    obtain ⟨w, hw, _, hbytes⟩ := valueBytes_eq_ok.mp (getElem?_mapM hitems hpiece hitem)
    rw [hv, Except.ok.injEq] at hw
    rw [hw, ← hbytes]
    exact flatten_split hwidth hitem

end Directive

/-! ## Numbers in a stream -/

namespace DataSection

/-- The big-endian number in `width` bytes of the stream. -/
def number? (s : DataSection) (offset width : Nat) : Option Nat :=
  if offset + width ≤ s.bytes.length then
    some (Nat.ofDigits 256 (((s.bytes.drop offset).take width).map (·.value.toNat)).reverse)
  else none

private theorem number?_of_bytes {s : DataSection} {before after : List SourceByte}
    {values : List UInt8} {line : Nat} (h : s.bytes = before ++ values.map (⟨·, line⟩) ++ after) :
    s.number? before.length values.length =
      some (Nat.ofDigits 256 (values.map UInt8.toNat).reverse) := by
  have htake : (s.bytes.drop before.length).take values.length =
      values.map (SourceByte.mk · line) := by
    rw [h, List.append_assoc, List.drop_left]
    exact List.take_left' (List.length_map ..)
  have hle : before.length + values.length ≤ s.bytes.length := by
    simp [h]
  rw [number?, if_pos hle, htake, List.map_map]
  rfl

/-- The words of a stream hold its bytes, and a zero byte where one is missing. -/
theorem words_hold (s : DataSection) :
    s.words.length = (s.offset + 1) / 2 ∧
      s.words.flatMap (fun w => (MemoryWord.mk w.1 none).bytes) =
        s.bytes.map (·.value) ++ if s.offset % 2 = 1 then [0] else [] := by
  refine ⟨length_words s, ?_⟩
  have hwords : (s.words.map fun w => MemoryWord.mk w.1 none).map (·.word) =
      (List.range ((s.offset + 1) / 2)).map (wordAt (s.bytes.map (·.value))) := by
    rw [List.map_map, offset, ← map_fst_pairUp]
    rfl
  have hlength : (s.bytes.map (·.value)).length = s.offset := List.length_map ..
  have hbytes := MemoryWord.flatMap_bytes_of_wordAt hwords (by omega)
  rw [List.flatMap_map, hlength] at hbytes
  rw [hbytes]
  congr 1
  by_cases hodd : s.offset % 2 = 1
  · rw [if_pos hodd, show 2 * ((s.offset + 1) / 2) - s.offset = 1 by omega]
    rfl
  · rw [if_neg hodd, show 2 * ((s.offset + 1) / 2) - s.offset = 0 by omega]
    rfl

end DataSection

namespace DataCall

/-- When a list of values can be written, and where its values are found. -/
structure WritesValues (c : DataCall) (width : Nat) (result : Except Error Nat)
    (next : DataSection) : Prop where
  ok_iff : (∃ start, result = .ok start) ↔
    (∃ ch ∈ c.args.toList, Text.isBlank ch = false) ∧
      ∀ piece ∈ c.pieces, ∃ v, Literal.value piece = .ok v ∧
        -2 ^ (8 * width - 1) ≤ v ∧ v < 2 ^ (8 * width)
  length : ∀ start, result = .ok start →
    next.offset = start + width * c.pieces.length
  item : ∀ start, result = .ok start → ∀ i piece v, c.pieces[i]? = some piece →
    Literal.value piece = .ok v → ∃ n,
      next.number? (start + width * i) width = some n ∧
        (n : Int) = v % 2 ^ (8 * width)

/-- What a call does to a stream: it adds a zero byte where that aligns it and then its payload, or
it fails and adds nothing. -/
structure Writes (c : DataCall) (s : DataSection) (result : Except Error Nat)
    (next : DataSection) : Prop where
  of_error : ∀ e, result = .error e → next = s
  of_ok : ∀ start, result = .ok start → ∃ payload, c.directive.payload c.args = .ok payload ∧
    next.bytes = s.bytes ++ c.padding s ++ payload.map (⟨·, c.line⟩) ∧
    start = (s.bytes ++ c.padding s).length
  even : ∀ start, result = .ok start → c.directive = .word ∨ c.directive = .long → start % 2 = 0
  values : ∀ width, c.directive.HasWidth width → c.WritesValues width result next

private theorem writesValues_run {c : DataCall} {width : Nat} (h : c.directive.HasWidth width)
    (s : DataSection) : c.WritesValues width (c.run s).1 (c.run s).2 := by
  obtain ⟨htakes, rfl⟩ := Directive.hasWidth_iff.mp h
  have hpayload := Directive.payload_of_takesValues htakes c.args
  refine ⟨?_, ?_, ?_⟩
  · rw [exists_run_eq_ok, hpayload, Directive.exists_values_eq_ok]
    simp only [pieces, List.forall_mem_map, fits_iff]
  · intro start hstart
    obtain ⟨payload, hvalues, rfl, hbytes⟩ := run_eq_ok hstart
    rw [hpayload] at hvalues
    rw [DataSection.offset, hbytes, List.length_append, List.length_map,
      (Directive.bytes_of_values hvalues).1, pieces, List.length_map]
  · intro start hstart i piece v hpiece hv
    obtain ⟨payload, hvalues, rfl, hbytes⟩ := run_eq_ok hstart
    rw [hpayload] at hvalues
    rw [pieces, List.getElem?_map, Option.map_eq_some_iff] at hpiece
    obtain ⟨chars, hchars, rfl⟩ := hpiece
    obtain ⟨before, after, rfl, hbefore⟩ :=
      (Directive.bytes_of_values hvalues).2 i chars v hchars hv
    have hplace : (c.run s).2.bytes =
        (s.bytes ++ c.padding s ++ before.map (⟨·, c.line⟩)) ++
          (Literal.lowBytes v c.directive.width).map (⟨·, c.line⟩) ++
          after.map (⟨·, c.line⟩) := by
      simp [hbytes]
    have hnumber := DataSection.number?_of_bytes hplace
    rw [List.length_append, List.length_map, hbefore, Literal.length_lowBytes] at hnumber
    refine ⟨_, hnumber, ?_⟩
    rw [Literal.ofDigits_lowBytes, pow_mul]
    rfl

theorem writes_run (c : DataCall) (s : DataSection) : c.Writes s (c.run s).1 (c.run s).2 where
  of_error _ h := run_eq_error h
  of_ok start h := by
    obtain ⟨payload, hpayload, hstart, hbytes⟩ := run_eq_ok h
    exact ⟨payload, hpayload, hbytes, hstart⟩
  even start h hwide := by
    obtain ⟨_, _, rfl, _⟩ := run_eq_ok h
    exact even_start hwide s
  values _ h := writesValues_run h s

theorem prefix_run (c : DataCall) (s : DataSection) : s.bytes <+: (c.run s).2.bytes := by
  cases hresult : (c.run s).1 with
  | error e =>
    have hsame : (c.run s).2 = s := run_eq_error hresult
    exact hsame.symm ▸ List.prefix_refl s.bytes
  | ok start =>
    obtain ⟨payload, _, _, hbytes⟩ := run_eq_ok hresult
    rw [hbytes, List.append_assoc]
    exact List.prefix_append _ _

end DataCall

/-! ## Calls one after the other -/

namespace DataSection

/-- The stream that calls leave; one that fails does not stop the next. -/
def afterCalls (s : DataSection) (calls : List DataCall) : DataSection :=
  calls.foldl (fun s c => (c.run s).2) s

theorem prefix_afterCalls (s : DataSection) (calls : List DataCall) :
    s.bytes <+: (s.afterCalls calls).bytes := by
  induction calls generalizing s with
  | nil => exact List.prefix_refl _
  | cons c calls ih => exact (c.prefix_run s).trans (ih (c.run s).2)

private theorem afterCalls_append (s : DataSection) (calls later : List DataCall) :
    s.afterCalls (calls ++ later) = (s.afterCalls calls).afterCalls later :=
  List.foldl_append

/-- In every sequence of calls, each call adds its padding and its payload or nothing at all, no
later call changes what it has written, and the words of the stream hold its bytes. -/
theorem emit_appends (before : List DataCall) (c : DataCall) (later : List DataCall) :
    c.Writes (empty.afterCalls before) (c.run (empty.afterCalls before)).1
        (c.run (empty.afterCalls before)).2 ∧
      (empty.afterCalls before).bytes <+: (c.run (empty.afterCalls before)).2.bytes ∧
      (c.run (empty.afterCalls before)).2.bytes <+:
        (empty.afterCalls (before ++ c :: later)).bytes ∧
      (empty.afterCalls before).words.length = ((empty.afterCalls before).bytes.length + 1) / 2 ∧
      (empty.afterCalls before).words.flatMap (fun w => (MemoryWord.mk w.1 none).bytes) =
        (empty.afterCalls before).bytes.map (·.value) ++
          if (empty.afterCalls before).bytes.length % 2 = 1 then [0] else [] := by
  have hlater : empty.afterCalls (before ++ c :: later) =
      (c.run (empty.afterCalls before)).2.afterCalls later := afterCalls_append ..
  refine ⟨c.writes_run _, c.prefix_run _, ?_, words_hold _⟩
  rw [hlater]
  exact prefix_afterCalls _ later

/-- A list with a bad last value leaves no trace at an odd offset, a good one is aligned. Strings
are not. -/
example : (empty.afterCalls [⟨.byte, "b101", 1⟩, ⟨.word, "1, 2, 65536", 2⟩, ⟨.word, " -2,+7", 3⟩,
      ⟨.byte, "", 4⟩, ⟨.ascii, "\"A\"", 5⟩, ⟨.long, "0x102, -1", 6⟩, ⟨.asciiz, "\"B\"", 7⟩]).bytes =
    [⟨5, 1⟩, ⟨0, 3⟩, ⟨0xFF, 3⟩, ⟨0xFE, 3⟩, ⟨0, 3⟩, ⟨7, 3⟩, ⟨65, 5⟩, ⟨0, 6⟩, ⟨0, 6⟩, ⟨0, 6⟩, ⟨1, 6⟩,
      ⟨2, 6⟩, ⟨0xFF, 6⟩, ⟨0xFF, 6⟩, ⟨0xFF, 6⟩, ⟨0xFF, 6⟩, ⟨66, 7⟩, ⟨0, 7⟩] := by
  decide

end DataSection

/-! ## The data of a program -/

theorem DataCall.bytesAt_eq (c : DataCall) (s : DataSection) (payload : List UInt8) :
    c.directive.bytesAt s.offset payload c.line = c.padding s ++ payload.map (⟨·, c.line⟩) := by
  rw [Directive.bytesAt, Directive.startAt, padding]
  simp only [Directive.one_lt_width]
  split
  · simp
  · simp

/-- The call writes a statement of the data section. -/
def DataCall.IsOf (c : DataCall) (s : SourceStatement) : Prop :=
  ∃ label payload, s = ⟨c.line, .data label c.directive payload⟩ ∧
    c.directive.payload c.args = .ok payload

private theorem DataSection.exists_afterCalls {ss : List SourceStatement}
    (h : ∀ s ∈ ss, ∃ current code, Statement.read current code = .ok s.statement)
    (t : DataSection) :
    ∃ calls, List.Forall₂ DataCall.IsOf calls (ss.filter (·.statement.section? = some .data)) ∧
      t.afterCalls calls = ⟨t.bytes ++ dataFrom t.offset ss⟩ := by
  induction ss generalizing t with
  | nil => exact ⟨[], .nil, by simp [afterCalls, dataFrom]⟩
  | cons s ss ih =>
    obtain ⟨hs, hss⟩ := List.forall_mem_cons.mp h
    rcases s with ⟨line, ⟨label, inst⟩ | ⟨label, directive, payload⟩ | ⟨name, address⟩ | _⟩
    · exact ih hss t
    · obtain ⟨current, code, hread⟩ := hs
      obtain ⟨written, _, _, hpayload⟩ := Statement.exists_written_data_of_read hread
      let c : DataCall := ⟨directive, written.args, line⟩
      have hrun : (c.run t).2 = ⟨t.bytes ++ directive.bytesAt t.offset payload line⟩ := by
        rw [DataCall.run_of_ok hpayload, c.bytesAt_eq, List.append_assoc]
      obtain ⟨calls, hcalls, hafter⟩ := ih hss (c.run t).2
      refine ⟨c :: calls, ?_, ?_⟩
      · exact .cons ⟨label, payload, rfl, hpayload⟩ hcalls
      · change (c.run t).2.afterCalls calls = _
        rw [hafter, hrun]
        simp [dataFrom, SourceStatement.bytesAt, offset]
    · exact ih hss t
    · exact ih hss t

/-- The data of a program is what the directives of its data section write, in source order. -/
theorem Program.data_eq_afterCalls {source : String} {p : Program}
    (h : Program.ofSource source = .ok p) :
    ∃ ss calls, readLines none (SourceLine.ofText source) = .ok ss ∧
      List.Forall₂ DataCall.IsOf calls (ss.filter (·.statement.section? = some .data)) ∧
      p.data = DataSection.empty.afterCalls calls := by
  obtain ⟨ss, hss, rfl⟩ := Program.ofSource_eq_ok.mp h
  have hread : ∀ s ∈ ss, ∃ current code, Statement.read current code = .ok s.statement := by
    intro s hs
    obtain ⟨_, raw, _, hread⟩ := standsIn_of_mem hss hs
    exact ⟨_, _, hread⟩
  obtain ⟨calls, hcalls, hafter⟩ := DataSection.exists_afterCalls hread .empty
  exact ⟨ss, calls, hss, hcalls, hafter.symm⟩

end SuperH
