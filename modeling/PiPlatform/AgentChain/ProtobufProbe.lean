import PiPlatform.Library.Varint

/-! The protobuf probe.

Three loops read bytes at a position that only grows, each up to the end of what is probed, so
they come to an end inside the data (`probe_ends`). On a message the position after each field is
the end of the field's bytes (`probeFields_encode`). -/
namespace PiPlatform.AgentChain.Protobuf

open Library

/-- What would be no result: an `IndexError`, or a loop that still runs. -/
inductive Fault where
  | indexError
  | running

abbrev Probed (α : Type) := Except Fault α

def byteAt (data : List UInt8) (pos : Nat) : Probed Nat :=
  match data[pos]? with
  | some byte => .ok byte.toNat
  | none => .error .indexError

/-! ### Loops -/

section Loops
variable (data : List UInt8) (maxProbe : Nat)

/-- A tag and the position behind it, or none where the data ends in it. Five bytes are read. -/
def readTag : (fuel : Nat) → (tag shift pos : Nat) → Probed (Option (Nat × Nat))
  | 0, _, _, _ => .error .running
  | fuel + 1, tag, shift, pos =>
    if pos < maxProbe then
      if data.length ≤ pos then .ok (some (tag, pos))
      else do
        let byte ← byteAt data pos
        let tag := tag ||| ((byte &&& 0x7F) <<< shift)
        if byte &&& 0x80 = 0 then .ok (some (tag, pos + 1))
        else if 28 < shift + 7 then .ok (some (tag, pos + 1))
        else readTag fuel tag (shift + 7) (pos + 1)
    else .ok none

def skipVarint : (fuel : Nat) → (pos : Nat) → Probed Nat
  | 0, _ => .error .running
  | fuel + 1, pos =>
    if pos < maxProbe ∧ pos < data.length then do
      let byte ← byteAt data pos
      if byte &&& 0x80 ≠ 0 then skipVarint fuel (pos + 1) else .ok (pos + 1)
    else .ok (pos + 1)

def readLength : (fuel : Nat) → (length shift pos : Nat) → Probed (Nat × Nat)
  | 0, _, _, _ => .error .running
  | fuel + 1, length, shift, pos =>
    if pos < maxProbe ∧ pos < data.length then do
      let byte ← byteAt data pos
      let length := length ||| ((byte &&& 0x7F) <<< shift)
      if byte &&& 0x80 = 0 then .ok (length, pos + 1)
      else readLength fuel length (shift + 7) (pos + 1)
    else .ok (length, pos)

/-- The position behind a value, or none for a wire type there is not. -/
def skipValue (fuel wireType pos : Nat) : Probed (Option Nat) :=
  if wireType = 0 then do
    let pos ← skipVarint data maxProbe fuel pos
    .ok (some pos)
  else if wireType = 1 then .ok (some (pos + 8))
  else if wireType = 2 then do
    let (length, pos) ← readLength data maxProbe fuel 0 0 pos
    .ok (some (pos + length))
  else if wireType = 5 then .ok (some (pos + 4))
  else .ok none

/-- Each loop inside is given as much fuel as there is left. -/
def probeFields : (fuel : Nat) → (fields : List (Nat × Nat)) → (pos : Nat) →
    Probed (List (Nat × Nat))
  | 0, _, _ => .error .running
  | fuel + 1, fields, pos =>
    if pos < maxProbe then do
      match ← readTag data maxProbe (fuel + 1) 0 0 pos with
      | none => .ok fields
      | some (tag, pos) =>
        let fieldNumber := tag >>> 3
        let wireType := tag &&& 0x07
        if fieldNumber = 0 ∨ 536870911 < fieldNumber then .ok fields
        else
          let fields := fields ++ [(fieldNumber, wireType)]
          match ← skipValue data maxProbe (fuel + 1) wireType pos with
          | none => .ok fields
          | some pos => if maxProbe < pos then .ok fields else probeFields fuel fields pos
    else .ok fields

end Loops

structure Probe where
  fieldCount : Nat
  fields : List (Nat × Nat)

def probeProtobufWire (fuel : Nat) (data : List UInt8) : Probed (Option Probe) :=
  if data.length < 2 then .ok none
  else do
    let fields ← probeFields data (min data.length 4096) fuel [] 0
    .ok (if 1 ≤ fields.length then some ⟨fields.length, fields.take 64⟩ else none)

/-! ### Messages -/

/-- What stands behind a tag. -/
inductive Payload where
  | varint (bytes : List UInt8) (wellFormed : Varint.IsVarint bytes) (short : bytes.length ≤ 10)
  | fixed64 (bytes : List UInt8) (eight : bytes.length = 8)
  | lengthDelimited (prefixed contents : List UInt8) (wellFormed : Varint.IsVarint prefixed)
      (short : prefixed.length ≤ 10) (counted : Varint.value prefixed = contents.length)
  | fixed32 (bytes : List UInt8) (four : bytes.length = 4)

namespace Payload

def wireType : Payload → Nat
  | varint .. => 0
  | fixed64 .. => 1
  | lengthDelimited .. => 2
  | fixed32 .. => 5

def bytes : Payload → List UInt8
  | varint bytes _ _ => bytes
  | fixed64 bytes _ => bytes
  | lengthDelimited prefixed contents _ _ _ => prefixed ++ contents
  | fixed32 bytes _ => bytes

end Payload

structure Field where
  number : Nat
  payload : Payload
  positive : 1 ≤ number
  bounded : number < 2 ^ 29

namespace Field

def tag (field : Field) : Nat := field.number * 8 + field.payload.wireType

def encode (field : Field) : List UInt8 := Varint.encode field.tag ++ field.payload.bytes

def summary (field : Field) : Nat × Nat := (field.number, field.payload.wireType)

end Field

def encodeMessage (fields : List Field) : List UInt8 := fields.flatMap Field.encode

/-! ### Steps -/

section Steps
variable {data : List UInt8} {maxProbe : Nat} {pos : Nat} {byte : UInt8}

theorem byteAt_of_some (h : data[pos]? = some byte) : byteAt data pos = .ok byte.toNat := by
  rw [byteAt, h]

theorem lt_of_some (h : data[pos]? = some byte) : pos < data.length :=
  (List.getElem?_eq_some_iff.mp h).1

theorem readTag_step (hpos : pos < maxProbe) (h : data[pos]? = some byte) (fuel tag shift : Nat) :
    readTag data maxProbe (fuel + 1) tag shift pos =
      if byte.toNat < 128 ∨ 28 < shift + 7 then
        .ok (some (tag ||| ((byte.toNat % 128) <<< shift), pos + 1))
      else
        readTag data maxProbe fuel (tag ||| ((byte.toNat % 128) <<< shift)) (shift + 7)
          (pos + 1) := by
  rw [readTag, if_pos hpos, if_neg (not_le.mpr (lt_of_some h)), byteAt_of_some h]
  show (if byte.toNat &&& 0x80 = 0 then _ else _) = _
  rw [Varint.and_low, if_congr (Varint.and_high byte) rfl rfl]
  by_cases hlow : byte.toNat < 128
  · rw [if_pos hlow, if_pos (.inl hlow)]
  · rw [if_neg hlow, if_congr (or_iff_right hlow) rfl rfl]

theorem skipVarint_step (hpos : pos < maxProbe) (h : data[pos]? = some byte) (fuel : Nat) :
    skipVarint data maxProbe (fuel + 1) pos =
      if byte.toNat < 128 then .ok (pos + 1) else skipVarint data maxProbe fuel (pos + 1) := by
  rw [skipVarint, if_pos ⟨hpos, lt_of_some h⟩, byteAt_of_some h]
  show (if byte.toNat &&& 0x80 ≠ 0 then _ else _) = _
  rw [ite_not, if_congr (Varint.and_high byte) rfl rfl]

theorem readLength_step (hpos : pos < maxProbe) (h : data[pos]? = some byte)
    (fuel length shift : Nat) :
    readLength data maxProbe (fuel + 1) length shift pos =
      if byte.toNat < 128 then .ok (length ||| ((byte.toNat % 128) <<< shift), pos + 1)
      else
        readLength data maxProbe fuel (length ||| ((byte.toNat % 128) <<< shift)) (shift + 7)
          (pos + 1) := by
  rw [readLength, if_pos ⟨hpos, lt_of_some h⟩, byteAt_of_some h]
  show (if byte.toNat &&& 0x80 = 0 then _ else _) = _
  rw [Varint.and_low, if_congr (Varint.and_high byte) rfl rfl]

/-- One field, when its tag and its value have been read. -/
theorem probeFields_step {fuel tag next : Nat} {skipped : Option Nat} (fields : List (Nat × Nat))
    (hpos : pos < maxProbe)
    (htag : readTag data maxProbe (fuel + 1) 0 0 pos = .ok (some (tag, next)))
    (hnumber : ¬ (tag >>> 3 = 0 ∨ 536870911 < tag >>> 3))
    (hvalue : skipValue data maxProbe (fuel + 1) (tag &&& 0x07) next = .ok skipped) :
    probeFields data maxProbe (fuel + 1) fields pos =
      skipped.elim (.ok (fields ++ [(tag >>> 3, tag &&& 0x07)])) fun pos =>
        if maxProbe < pos then .ok (fields ++ [(tag >>> 3, tag &&& 0x07)])
        else probeFields data maxProbe fuel (fields ++ [(tag >>> 3, tag &&& 0x07)]) pos := by
  rw [probeFields, if_pos hpos, htag]
  show (if tag >>> 3 = 0 ∨ 536870911 < tag >>> 3 then _ else _) = _
  rw [if_neg hnumber, hvalue]
  cases skipped <;> rfl

end Steps

/-! ### Every loop ends -/

section Ends
variable {data : List UInt8} {maxProbe : Nat} {pos left : Nat}

theorem exists_byte (h : pos < data.length) : ∃ byte : UInt8, data[pos]? = some byte :=
  ⟨data[pos], List.getElem?_eq_getElem h⟩

theorem exists_succ {fuel : Nat} (h : left < fuel) : ∃ n, fuel = n + 1 :=
  Nat.exists_eq_succ_of_ne_zero (Nat.ne_zero_of_lt h)

/-- A loop that stops, or goes on at a position further up, ends with fuel for each position
left. -/
theorem loop_ends {σ β : Type} (f : Nat → σ → Nat → Probed β) (P : Nat → β → Prop)
    (hround : ∀ s pos,
      (∃ read, (∀ n, maxProbe - pos ≤ n → f (n + 1) s pos = .ok read) ∧ P pos read) ∨
      pos < maxProbe ∧ ∃ s' pos', pos < pos' ∧
        (∀ n, maxProbe - pos ≤ n → f (n + 1) s pos = f n s' pos') ∧
        ∀ read, P pos' read → P pos read) (s : σ) (pos : Nat) :
    ∃ read, (∀ fuel, maxProbe - pos < fuel → f fuel s pos = .ok read) ∧ P pos read := by
  induction hleft : maxProbe - pos using Nat.strong_induction_on generalizing pos s with
  | _ left ih =>
    rcases hround s pos with ⟨read, hread, hend⟩ | ⟨hpos, s', pos', hlt, hnext, hend⟩
    · refine ⟨read, fun fuel hfuel => ?_, hend⟩
      obtain ⟨n, rfl⟩ := exists_succ hfuel
      exact hread n (by omega)
    · obtain ⟨read, hread, hprogress⟩ := ih (maxProbe - pos') (by omega) s' pos' rfl
      refine ⟨read, fun fuel hfuel => ?_, hend read hprogress⟩
      obtain ⟨n, rfl⟩ := exists_succ hfuel
      exact (hnext n (by omega)).trans (hread n (by omega))

section Inside
variable (hdata : maxProbe ≤ data.length)
include hdata

theorem readTag_ends (tag shift pos : Nat) :
    ∃ read, (∀ fuel, maxProbe - pos < fuel →
        readTag data maxProbe fuel tag shift pos = .ok read) ∧
      ∀ tag' pos', read = some (tag', pos') → pos < pos' := by
  refine loop_ends (fun fuel (s : Nat × Nat) pos => readTag data maxProbe fuel s.1 s.2 pos)
    (fun pos read => ∀ tag' pos', read = some (tag', pos') → pos < pos') (fun s pos => ?_)
    (tag, shift) pos
  by_cases hpos : pos < maxProbe
  · obtain ⟨byte, hbyte⟩ := exists_byte (lt_of_lt_of_le hpos hdata)
    have hstep := fun n => readTag_step hpos hbyte n s.1 s.2
    by_cases hlast : byte.toNat < 128 ∨ 28 < s.2 + 7
    · refine .inl ⟨_, fun n _ => (hstep n).trans (if_pos hlast), fun tag' pos' heq => ?_⟩
      obtain ⟨-, rfl⟩ := Prod.mk.inj (Option.some.inj heq)
      exact Nat.lt_succ_self _
    · exact .inr ⟨hpos, (_, _), pos + 1, Nat.lt_succ_self _,
        fun n _ => (hstep n).trans (if_neg hlast),
        fun read h tag' pos' heq => Nat.lt_of_succ_lt (h tag' pos' heq)⟩
  · exact .inl ⟨none, fun n _ => by rw [readTag, if_neg hpos], fun _ _ h => nomatch h⟩

theorem skipVarint_ends (pos : Nat) :
    ∃ read, (∀ fuel, maxProbe - pos < fuel → skipVarint data maxProbe fuel pos = .ok read) ∧
      pos < read := by
  refine loop_ends (fun fuel (_ : Unit) pos => skipVarint data maxProbe fuel pos)
    (fun pos read => pos < read) (fun _ pos => ?_) () pos
  by_cases hpos : pos < maxProbe
  · obtain ⟨byte, hbyte⟩ := exists_byte (lt_of_lt_of_le hpos hdata)
    have hstep := skipVarint_step hpos hbyte
    by_cases hlast : byte.toNat < 128
    · exact .inl ⟨_, fun n _ => (hstep n).trans (if_pos hlast), Nat.lt_succ_self _⟩
    · exact .inr ⟨hpos, (), pos + 1, Nat.lt_succ_self _,
        fun n _ => (hstep n).trans (if_neg hlast), fun read => Nat.lt_of_succ_lt⟩
  · exact .inl ⟨_, fun n _ => by rw [skipVarint, if_neg fun h => hpos h.1], Nat.lt_succ_self _⟩

theorem readLength_ends (length shift pos : Nat) :
    ∃ read, (∀ fuel, maxProbe - pos < fuel →
        readLength data maxProbe fuel length shift pos = .ok read) ∧ pos ≤ read.2 := by
  refine loop_ends (fun fuel (s : Nat × Nat) pos => readLength data maxProbe fuel s.1 s.2 pos)
    (fun pos read => pos ≤ read.2) (fun s pos => ?_) (length, shift) pos
  by_cases hpos : pos < maxProbe
  · obtain ⟨byte, hbyte⟩ := exists_byte (lt_of_lt_of_le hpos hdata)
    have hstep := fun n => readLength_step hpos hbyte n s.1 s.2
    by_cases hlast : byte.toNat < 128
    · exact .inl ⟨_, fun n _ => (hstep n).trans (if_pos hlast), Nat.le_succ _⟩
    · exact .inr ⟨hpos, (_, _), pos + 1, Nat.lt_succ_self _,
        fun n _ => (hstep n).trans (if_neg hlast), fun read => Nat.le_of_succ_le⟩
  · exact .inl ⟨(_, _), fun n _ => by rw [readLength, if_neg fun h => hpos h.1], le_rfl⟩

theorem skipValue_ends (wireType pos : Nat) :
    ∃ read, (∀ fuel, maxProbe - pos < fuel →
        skipValue data maxProbe fuel wireType pos = .ok read) ∧
      ∀ pos', read = some pos' → pos ≤ pos' := by
  obtain ⟨behind, hbehind, hskipped⟩ := skipVarint_ends hdata pos
  obtain ⟨counted, hcounted, hread⟩ := readLength_ends hdata 0 0 pos
  refine ⟨if wireType = 0 then some behind else if wireType = 1 then some (pos + 8)
    else if wireType = 2 then some (counted.2 + counted.1)
    else if wireType = 5 then some (pos + 4) else none, fun fuel hfuel => ?_, ?_⟩
  · rw [skipValue, hbehind fuel hfuel, hcounted fuel hfuel]
    split_ifs <;> rfl
  · intro pos' heq
    split_ifs at heq <;> cases heq <;> omega

theorem probeFields_ends (fields : List (Nat × Nat)) (pos : Nat) :
    ∃ read, ∀ fuel, maxProbe - pos < fuel →
      probeFields data maxProbe fuel fields pos = .ok read := by
  suffices h : ∃ read, (∀ fuel, maxProbe - pos < fuel →
      probeFields data maxProbe fuel fields pos = .ok read) ∧ True from
    ⟨h.choose, h.choose_spec.1⟩
  refine loop_ends (fun fuel fields pos => probeFields data maxProbe fuel fields pos)
    (fun _ _ => True) (fun fields pos => ?_) fields pos
  by_cases hpos : pos < maxProbe
  · obtain ⟨read, hread, hprogress⟩ := readTag_ends hdata 0 0 pos
    have htag := fun n (hn : maxProbe - pos ≤ n) => hread (n + 1) (Nat.lt_succ_of_le hn)
    cases read with
    | none =>
      refine .inl ⟨fields, fun n hn => ?_, trivial⟩
      rw [probeFields, if_pos hpos, htag n hn]
      rfl
    | some behind =>
      obtain ⟨tag, next⟩ := behind
      have hnext : pos < next := hprogress tag next rfl
      by_cases hnumber : tag >>> 3 = 0 ∨ 536870911 < tag >>> 3
      · refine .inl ⟨fields, fun n hn => ?_, trivial⟩
        rw [probeFields, if_pos hpos, htag n hn]
        exact if_pos hnumber
      · obtain ⟨skipped, hskipped, hbehind⟩ := skipValue_ends hdata (tag &&& 0x07) next
        have hfield := fun n (hn : maxProbe - pos ≤ n) =>
          probeFields_step fields hpos (htag n hn) hnumber
            (hskipped (n + 1) (by omega))
        cases skipped with
        | none => exact .inl ⟨_, hfield, trivial⟩
        | some last =>
          by_cases hover : maxProbe < last
          · exact .inl ⟨_, fun n hn => (hfield n hn).trans (if_pos hover), trivial⟩
          · exact .inr ⟨hpos, _, last, lt_of_lt_of_le hnext (hbehind last rfl),
              fun n hn => (hfield n hn).trans (if_neg hover), fun _ => id⟩
  · exact .inl ⟨fields, fun n _ => by rw [probeFields, if_neg hpos], trivial⟩

end Inside

/-- With fuel for one round a byte the probe comes to its end, inside the data. -/
theorem probe_ends (data : List UInt8) :
    ∃ read, ∀ fuel, data.length < fuel → probeProtobufWire fuel data = .ok read := by
  obtain ⟨fields, hfields⟩ := probeFields_ends (min_le_left data.length 4096) [] 0
  by_cases hshort : data.length < 2
  · exact ⟨none, fun fuel _ => by rw [probeProtobufWire, if_pos hshort]⟩
  · refine ⟨if 1 ≤ fields.length then some ⟨fields.length, fields.take 64⟩ else none,
      fun fuel hfuel => ?_⟩
    rw [probeProtobufWire, if_neg hshort, hfields fuel (by omega)]
    rfl

end Ends

/-! ### Messages are read -/

section Reads
variable {data bytes rest : List UInt8} {pos fuel : Nat}

theorem next_byte {byte : UInt8} (h : data.drop pos = byte :: rest) :
    data[pos]? = some byte ∧ data.drop (pos + 1) = rest := by
  constructor
  · have hhead := congrArg (·[0]?) h
    simpa using hhead
  · rw [← List.drop_drop, h]
    rfl

/-- A loop that puts together the low bits of the bytes, up to the first without its high bit,
reads a varint. -/
theorem loop_varint {β : Type} (f : Nat → Nat → Nat → Nat → Probed β) (done : Nat → Nat → β)
    (bound : Nat) (hlast : ∀ {pos : Nat} {byte : UInt8}, data[pos]? = some byte → byte.toNat < 128 →
      ∀ n acc shift, f (n + 1) acc shift pos =
        .ok (done (acc ||| ((byte.toNat % 128) <<< shift)) (pos + 1)))
    (hmore : ∀ {pos : Nat} {byte : UInt8}, data[pos]? = some byte → ¬ byte.toNat < 128 →
      ∀ n acc shift, shift + 7 ≤ bound → f (n + 1) acc shift pos =
        f n (acc ||| ((byte.toNat % 128) <<< shift)) (shift + 7) (pos + 1))
    {acc shift : Nat} (hbytes : Varint.IsVarint bytes) (hdrop : data.drop pos = bytes ++ rest)
    (hacc : acc < 2 ^ shift) (hshift : 7 * bytes.length + shift ≤ bound + 7)
    (hfuel : bytes.length ≤ fuel) :
    f fuel acc shift pos =
      .ok (done (acc + Varint.value bytes * 2 ^ shift) (pos + bytes.length)) := by
  induction bytes generalizing pos acc shift fuel with
  | nil => exact absurd hbytes id
  | cons b bytes ih =>
    obtain ⟨n, rfl⟩ := exists_succ (Nat.lt_of_lt_of_le (Nat.succ_pos _) hfuel)
    obtain ⟨hbyte, hnext⟩ := next_byte hdrop
    cases bytes with
    | nil =>
      rw [hlast hbyte (Varint.lt_of_isVarint hbytes), Varint.or_shift hacc, Varint.value,
        Varint.value, Nat.mul_zero, Nat.add_zero]
      rfl
    | cons c bytes =>
      have hadd : pos + 1 + (c :: bytes).length = pos + (b :: c :: bytes).length := by
        simp only [List.length_cons]
        omega
      rw [List.length_cons, List.length_cons] at hshift
      rw [hmore hbyte (Varint.not_lt_of_isVarint hbytes) n acc shift (by omega),
        Varint.or_shift hacc,
        ih hbytes.2 hnext (Varint.acc_lt hacc (Nat.mod_lt _ (by decide)))
          (by rw [List.length_cons]; omega) (Nat.le_of_succ_le_succ hfuel),
        Varint.accumulate_cons, hadd]

theorem readTag_varint (hbytes : Varint.IsVarint bytes) (hdrop : data.drop pos = bytes ++ rest)
    (hshort : bytes.length ≤ 5) (hfuel : bytes.length ≤ fuel) :
    readTag data data.length fuel 0 0 pos =
      .ok (some (Varint.value bytes, pos + bytes.length)) := by
  have hread := loop_varint (readTag data data.length) (fun tag pos => some (tag, pos)) 28
    (fun h hlow n acc shift => (readTag_step (lt_of_some h) h n acc shift).trans
      (if_pos (.inl hlow)))
    (fun h hhigh n acc shift hshift => (readTag_step (lt_of_some h) h n acc shift).trans
      (if_neg (by omega)))
    hbytes hdrop (Nat.two_pow_pos 0) (by omega) hfuel
  simpa using hread

theorem skipVarint_varint (hbytes : Varint.IsVarint bytes) (hdrop : data.drop pos = bytes ++ rest)
    (hfuel : bytes.length ≤ fuel) :
    skipVarint data data.length fuel pos = .ok (pos + bytes.length) :=
  loop_varint (fun fuel _ _ pos => skipVarint data data.length fuel pos) (fun _ pos => pos)
    (7 * bytes.length)
    (fun h hlow n _ _ => (skipVarint_step (lt_of_some h) h n).trans (if_pos hlow))
    (fun h hhigh n _ _ _ => (skipVarint_step (lt_of_some h) h n).trans (if_neg hhigh))
    hbytes hdrop (Nat.two_pow_pos 0) (Nat.le_add_right _ _) hfuel

theorem readLength_varint (hbytes : Varint.IsVarint bytes) (hdrop : data.drop pos = bytes ++ rest)
    (hfuel : bytes.length ≤ fuel) :
    readLength data data.length fuel 0 0 pos =
      .ok (Varint.value bytes, pos + bytes.length) := by
  have hread := loop_varint (readLength data data.length) Prod.mk (7 * bytes.length)
    (fun h hlow n acc shift => (readLength_step (lt_of_some h) h n acc shift).trans (if_pos hlow))
    (fun h hhigh n acc shift _ => (readLength_step (lt_of_some h) h n acc shift).trans
      (if_neg hhigh))
    hbytes hdrop (Nat.two_pow_pos 0) (Nat.le_add_right _ _) hfuel
  simpa using hread

theorem skipValue_payload {payload : Payload} (hdrop : data.drop pos = payload.bytes ++ rest)
    (hfuel : payload.bytes.length ≤ fuel) :
    skipValue data data.length fuel payload.wireType pos =
      .ok (some (pos + payload.bytes.length)) := by
  cases payload with
  | varint bytes wellFormed short =>
    rw [skipValue, Payload.wireType, if_pos rfl, skipVarint_varint wellFormed hdrop hfuel]
    rfl
  | fixed64 bytes eight =>
    rw [Payload.bytes, eight]
    rfl
  | lengthDelimited prefixed contents wellFormed short counted =>
    rw [Payload.bytes, List.append_assoc] at hdrop
    rw [Payload.bytes, List.length_append] at hfuel
    rw [skipValue, Payload.wireType, if_neg (by decide), if_neg (by decide), if_pos rfl,
      readLength_varint wellFormed hdrop (by omega), counted, Payload.bytes, List.length_append,
      ← Nat.add_assoc]
    rfl
  | fixed32 bytes four =>
    rw [Payload.bytes, four]
    rfl

theorem Field.wireType_lt (field : Field) : field.payload.wireType < 8 := by
  cases field.payload <;> simp only [Payload.wireType] <;> decide

theorem Field.tag_lt (field : Field) : field.tag < 2 ^ 32 := by
  have hwire := field.wireType_lt
  have hnumber := field.bounded
  rw [Field.tag]
  omega

/-- A field is read as it was written, to the end of its bytes. -/
theorem readField {field : Field} (hdrop : data.drop pos = field.encode ++ rest)
    (hfuel : data.length - pos ≤ fuel) :
    readTag data data.length fuel 0 0 pos =
        .ok (some (field.tag, pos + (Varint.encode field.tag).length)) ∧
      skipValue data data.length fuel field.payload.wireType
          (pos + (Varint.encode field.tag).length) =
        .ok (some (pos + field.encode.length)) := by
  have hlength := congrArg List.length hdrop
  rw [List.length_drop, List.length_append, Field.encode, List.length_append] at hlength
  rw [Field.encode, List.append_assoc] at hdrop
  have hshort : (Varint.encode field.tag).length ≤ 5 :=
    Varint.length_encode_le (lt_of_lt_of_le field.tag_lt (by decide))
  constructor
  · rw [readTag_varint (Varint.isVarint_encode _) hdrop hshort (by omega), Varint.value_encode]
  · have hvalue : data.drop (pos + (Varint.encode field.tag).length) =
        field.payload.bytes ++ rest := by
      rw [← List.drop_drop, hdrop, List.drop_left]
    rw [skipValue_payload hvalue (by omega), Field.encode, List.length_append, Nat.add_assoc]

theorem probeFields_encode {fields : List Field} (hdrop : data.drop pos = encodeMessage fields)
    (hfuel : data.length - pos < fuel) (seen : List (Nat × Nat)) :
    probeFields data data.length fuel seen pos = .ok (seen ++ fields.map Field.summary) := by
  induction fields generalizing pos fuel seen with
  | nil =>
    have hend : data.length ≤ pos := List.drop_eq_nil_iff.mp hdrop
    obtain ⟨n, rfl⟩ := exists_succ hfuel
    rw [probeFields, if_neg (not_lt.mpr hend), List.map_nil, List.append_nil]
  | cons field fields ih =>
    obtain ⟨n, rfl⟩ := exists_succ hfuel
    rw [encodeMessage, List.flatMap_cons] at hdrop
    have hlength := congrArg List.length hdrop
    rw [List.length_drop, List.length_append] at hlength
    have hpositive : 0 < field.encode.length := by
      rw [Field.encode, List.length_append]
      exact Nat.add_pos_left (List.length_pos_iff.mpr (Varint.encode_ne_nil _)) _
    have hpos : pos < data.length := by omega
    obtain ⟨htag, hvalue⟩ := readField hdrop (Nat.le_of_lt hfuel)
    have hwire := field.wireType_lt
    have hnumber : field.tag >>> 3 = field.number := by
      rw [Nat.shiftRight_eq_div_pow, Field.tag]
      omega
    have htype : field.tag &&& 0x07 = field.payload.wireType := by
      rw [show field.tag &&& 0x07 = field.tag % 2 ^ 3 from Nat.and_two_pow_sub_one_eq_mod _ 3,
        Field.tag]
      omega
    rw [← htype] at hvalue
    have hbounded := field.bounded
    have hnotzero := field.positive
    rw [probeFields_step _ hpos htag (by omega) hvalue, Option.elim_some, if_neg (by omega),
      hnumber, htype]
    have hrest : data.drop (pos + field.encode.length) = encodeMessage fields := by
      rw [← List.drop_drop, hdrop, List.drop_left]
      rfl
    rw [ih hrest (by omega), List.append_assoc]
    rfl

theorem Field.two_le_length (field : Field) : 2 ≤ field.encode.length := by
  have hvalue : 1 ≤ field.payload.bytes.length := by
    cases field.payload with
    | varint bytes wellFormed short => exact Varint.length_pos wellFormed
    | fixed64 bytes eight => exact eight ▸ by decide
    | lengthDelimited prefixed contents wellFormed short counted =>
      rw [Payload.bytes, List.length_append]
      exact Nat.le_add_right_of_le (Varint.length_pos wellFormed)
    | fixed32 bytes four => exact four ▸ by decide
  have htag := Varint.length_pos (Varint.isVarint_encode field.tag)
  rw [Field.encode, List.length_append]
  omega

theorem probe_encode {fields : List Field} (hne : fields ≠ [])
    (hlength : (encodeMessage fields).length ≤ 4096)
    (hfuel : (encodeMessage fields).length < fuel) :
    probeProtobufWire fuel (encodeMessage fields) =
      .ok (some ⟨fields.length, (fields.map Field.summary).take 64⟩) := by
  obtain ⟨field, others, rfl⟩ := List.exists_cons_of_ne_nil hne
  have htwo : 2 ≤ (encodeMessage (field :: others)).length := by
    rw [encodeMessage, List.flatMap_cons, List.length_append]
    exact Nat.le_add_right_of_le field.two_le_length
  have hdrop : (encodeMessage (field :: others)).drop 0 = encodeMessage (field :: others) :=
    List.drop_zero
  have hread := probeFields_encode hdrop hfuel []
  rw [probeProtobufWire, if_neg (not_lt.mpr htwo), min_eq_left hlength, hread, List.nil_append]
  show Except.ok (if 1 ≤ ((field :: others).map Field.summary).length then _ else _) = _
  rw [if_pos (by simp), List.length_map]

/-- Every message of up to 4096 bytes is read, and on any bytes the probe comes to its end without
an access outside them. -/
theorem probe_message (fields : List Field) (data : List UInt8) :
    (fields ≠ [] → (encodeMessage fields).length ≤ 4096 →
      ∀ fuel, (encodeMessage fields).length < fuel →
        probeProtobufWire fuel (encodeMessage fields) =
          .ok (some ⟨fields.length, (fields.map Field.summary).take 64⟩)) ∧
      ∃ read, ∀ fuel, data.length < fuel → probeProtobufWire fuel data = .ok read :=
  ⟨fun hne hlength _ hfuel => probe_encode hne hlength hfuel, probe_ends data⟩

/-- Field 3 with a varint and field 1 with three bytes. -/
def sample : List Field :=
  [⟨3, .varint [0x96, 0x01] (by decide) (by decide), by decide, by decide⟩,
    ⟨1, .lengthDelimited [0x03] [1, 2, 3] (by decide) (by decide) (by decide), by decide,
      by decide⟩]

theorem probe_sample :
    (∀ fuel, (encodeMessage sample).length < fuel →
      probeProtobufWire fuel (encodeMessage sample) = .ok (some ⟨2, [(3, 0), (1, 2)]⟩)) ∧
      ∃ read, ∀ fuel, 1 < fuel → probeProtobufWire fuel [0xFF] = .ok read := by
  obtain ⟨hsample, hbytes⟩ := probe_message sample [0xFF]
  refine ⟨hsample (by decide) ?_, hbytes⟩
  simp [sample, encodeMessage, Field.encode, Field.tag, Payload.wireType, Payload.bytes,
    Varint.encode_of_lt]

end Reads

end PiPlatform.AgentChain.Protobuf
