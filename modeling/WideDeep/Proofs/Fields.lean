import Mathlib.Tactic
import WideDeep.Proofs.Reading
import WideDeep.Proofs.Results
import WideDeep.Proofs.StoredBits

/-!
# Fields are read back

The bytes of a field, once it can be written, are read back as its value. Fields in sequence are
read back by readers in sequence.
-/

namespace WideDeep.Proofs
open Binary

variable {β γ : Type}

section BigEndian

lemma length_bigEndian (n v : Nat) : (bigEndian n v).length = n := by
  induction n with
  | zero => rfl
  | succ n ih => rw [bigEndian, List.length_cons, ih]

lemma foldl_ofBigEndian (bytes : Bytes) (acc : Nat) :
    bytes.foldl (fun v b => 256 * v + b.toNat) acc = 256 ^ bytes.length * acc + ofBigEndian bytes := by
  induction bytes generalizing acc with
  | nil => simp [ofBigEndian]
  | cons b bytes ih =>
    unfold ofBigEndian
    rw [List.foldl_cons, List.foldl_cons, ih, ih (256 * 0 + b.toNat), List.length_cons]
    ring

/-- The first byte counts for most. -/
lemma ofBigEndian_cons (b : UInt8) (bytes : Bytes) :
    ofBigEndian (b :: bytes) = 256 ^ bytes.length * b.toNat + ofBigEndian bytes := by
  rw [← foldl_ofBigEndian bytes b.toNat]
  unfold ofBigEndian
  rw [List.foldl_cons, Nat.mul_zero, Nat.zero_add]

lemma ofBigEndian_bigEndian_mod (n v : Nat) : ofBigEndian (bigEndian n v) = v % 256 ^ n := by
  induction n with
  | zero => simp [bigEndian, ofBigEndian, Nat.mod_one]
  | succ n ih =>
    have hbyte : (UInt8.ofNat (v / 256 ^ n)).toNat = v / 256 ^ n % 256 := UInt8.toNat_ofNat
    rw [bigEndian, ofBigEndian_cons, length_bigEndian, ih, Nat.pow_eq, hbyte, pow_succ, Nat.mod_mul]
    ring

/-- Bytes of a number that fits into them give the number back. -/
theorem ofBigEndian_bigEndian {n v : Nat} (h : v < 256 ^ n) : ofBigEndian (bigEndian n v) = v := by
  rw [ofBigEndian_bigEndian_mod, Nat.mod_eq_of_lt h]

lemma lt_of_fitsWord {n : Nat} (h : fitsWord n = true) : n < 0x80000000 := by
  have hfit : -0x80000000 ≤ (n : Int) ∧ (n : Int) < 0x80000000 := by simpa [fitsWord] using h
  omega

/-- The four bytes of an integer that fits into them give the integer back. -/
theorem ofWordBytes_wordBytes {n : Int} (h : fitsWord n = true) : ofWordBytes (wordBytes n) = n := by
  have hfit : -0x80000000 ≤ n ∧ n < 0x80000000 := by simpa [fitsWord] using h
  have hsize : (n % 0x100000000).toNat < 256 ^ 4 := by
    norm_num
    omega
  rw [ofWordBytes, wordBytes, ofBigEndian_bigEndian hsize]
  split <;> omega

lemma ofSingleBytes_singleBytes (x : Stored Float32) : ofSingleBytes (singleBytes x) = x.value := by
  rw [ofSingleBytes, singleBytes, ofBigEndian_bigEndian (bits32_lt x), ofBits_bits32]

lemma ofDoubleBytes_doubleBytes (x : Stored Float) : ofDoubleBytes (doubleBytes x) = x.value := by
  rw [ofDoubleBytes, doubleBytes, ofBigEndian_bigEndian (bits64_lt x), ofBits_bits64]

lemma length_wordBytes (n : Int) : (wordBytes n).length = 4 := length_bigEndian 4 _

lemma length_singleBytes (x : Stored Float32) : (singleBytes x).length = 4 := length_bigEndian 4 _

lemma length_doubleBytes (x : Stored Float) : (doubleBytes x).length = 8 := length_bigEndian 8 _

lemma length_flatMap_of_const {size : Nat} {g : β → Bytes} (hg : ∀ x, (g x).length = size)
    (xs : List β) : (xs.flatMap g).length = xs.length * size := by
  induction xs with
  | nil => simp
  | cons x xs ih =>
    rw [List.flatMap_cons, List.length_append, hg, ih, List.length_cons]
    ring

/-- Values of equal length, one behind the other, come apart again. -/
theorem groups_flatMap {size : Nat} {g : β → Bytes} (hg : ∀ x, (g x).length = size) (xs : List β) :
    Reader.groups size xs.length (xs.flatMap g) = xs.map g := by
  induction xs with
  | nil => rfl
  | cons x xs ih =>
    have htake : (g x ++ xs.flatMap g).take size = g x := List.take_left' (hg x)
    have hdrop : (g x ++ xs.flatMap g).drop size = xs.flatMap g := List.drop_left' (hg x)
    rw [List.length_cons, Reader.groups, List.flatMap_cons, htake, hdrop, ih, List.map_cons]

end BigEndian

section Sequences

/-- Writing a field and then others. -/
theorem encodeAll_cons (f : Field) (fs : List Field) (bytes : Bytes) :
    Field.encodeAll (f :: fs) = .ok bytes ↔
      ∃ b₁ b₂, f.encode = .ok b₁ ∧ Field.encodeAll fs = .ok b₂ ∧ bytes = b₁ ++ b₂ := by
  unfold Field.encodeAll
  rw [List.mapM_cons, map_eq_ok]
  constructor
  · rintro ⟨pieces, hpieces, rfl⟩
    obtain ⟨b₁, hfirst, hrest⟩ := bind_eq_ok.mp hpieces
    obtain ⟨others, hothers, hjoin⟩ := bind_eq_ok.mp hrest
    cases hjoin
    exact ⟨b₁, others.flatten, hfirst, map_eq_ok.mpr ⟨others, hothers, rfl⟩, rfl⟩
  · rintro ⟨b₁, b₂, hfirst, hrest, rfl⟩
    obtain ⟨others, hothers, rfl⟩ := map_eq_ok.mp hrest
    exact ⟨b₁ :: others,
      bind_eq_ok.mpr ⟨b₁, hfirst, bind_eq_ok.mpr ⟨others, hothers, rfl⟩⟩, rfl⟩

/-- Writing some fields and then others. -/
theorem encodeAll_append (fs gs : List Field) (bytes : Bytes) :
    Field.encodeAll (fs ++ gs) = .ok bytes ↔
      ∃ b₁ b₂, Field.encodeAll fs = .ok b₁ ∧ Field.encodeAll gs = .ok b₂ ∧ bytes = b₁ ++ b₂ := by
  induction fs generalizing bytes with
  | nil =>
    constructor
    · intro h
      exact ⟨[], bytes, rfl, h, rfl⟩
    · rintro ⟨b₁, b₂, hfirst, hrest, rfl⟩
      cases hfirst
      exact hrest
  | cons f fs ih =>
    rw [List.cons_append, encodeAll_cons]
    constructor
    · rintro ⟨b₁, b₂, hfirst, hrest, rfl⟩
      obtain ⟨c₁, c₂, hfs, hgs, rfl⟩ := (ih b₂).mp hrest
      exact ⟨b₁ ++ c₁, c₂, (encodeAll_cons _ _ _).mpr ⟨b₁, c₁, hfirst, hfs, rfl⟩, hgs,
        (List.append_assoc _ _ _).symm⟩
    · rintro ⟨b, c₂, hfirst, hgs, rfl⟩
      obtain ⟨b₁, c₁, hf, hfs, rfl⟩ := (encodeAll_cons _ _ _).mp hfirst
      exact ⟨b₁, c₁ ++ c₂, hf, (ih _).mpr ⟨c₁, c₂, hfs, hgs, rfl⟩, List.append_assoc _ _ _⟩

lemma encodeAll_singleton (f : Field) : Field.encodeAll [f] = f.encode := by
  unfold Field.encodeAll
  cases h : f.encode <;> simp [h, Except.map, bind, Except.bind, pure, Except.pure]

end Sequences

/-- Whenever these fields can be written, the reader takes exactly their bytes and gives the
value. -/
def Decodes (fs : List Field) (r : Reader β) (v : β) : Prop :=
  ∀ bytes, Field.encodeAll fs = .ok bytes → Reads r bytes v

namespace Decodes

variable {f : Field} {fs gs : List Field} {r : Reader β} {k : β → Reader γ} {v : β} {w : γ}

lemma pure (v : β) : Decodes [] (Pure.pure v) v := by
  intro bytes hbytes
  cases hbytes
  exact Reads.pure v

/-- Readers in sequence read fields in sequence. -/
theorem append (h₁ : Decodes fs r v) (h₂ : Decodes gs (k v) w) : Decodes (fs ++ gs) (r >>= k) w := by
  intro bytes hbytes
  obtain ⟨b₁, b₂, hfs, hgs, rfl⟩ := (encodeAll_append _ _ _).mp hbytes
  exact (h₁ b₁ hfs).bind (h₂ b₂ hgs)

lemma cons (h₁ : Decodes [f] r v) (h₂ : Decodes gs (k v) w) : Decodes (f :: gs) (r >>= k) w :=
  h₁.append h₂

lemma last (h : Decodes fs r v) (k : β → γ) : Decodes fs (r >>= fun x => Pure.pure (k x)) (k v) := by
  intro bytes hbytes
  exact (h bytes hbytes).map k

lemma of_encode (h : ∀ bytes, f.encode = .ok bytes → Reads r bytes v) : Decodes [f] r v := by
  intro bytes hbytes
  rw [encodeAll_singleton] at hbytes
  exact h bytes hbytes

/-- A reader run once for each of several parts. -/
theorem replicate {α : Type} {parts : α → List Field} {value : α → β} {xs : List α}
    (h : ∀ x ∈ xs, Decodes (parts x) r (value x)) :
    Decodes (xs.flatMap parts) (Reader.replicate r xs.length) (xs.map value) := by
  induction xs with
  | nil => exact Decodes.pure []
  | cons x xs ih =>
    have hfirst := h x List.mem_cons_self
    have hrest := ih fun y hy => h y (List.mem_cons_of_mem x hy)
    rw [List.flatMap_cons]
    exact hfirst.append (hrest.last _)

end Decodes

section Pieces

variable {f : Field} {p q : Except Error Bytes} {bytes : Bytes}

lemma encode_one (h : f.pieces = [p]) : f.encode = p := by
  unfold Field.encode
  rw [h]
  cases p <;> simp [Except.map, bind, Except.bind, pure, Except.pure]

lemma encode_two (h : f.pieces = [p, q]) :
    f.encode = .ok bytes ↔ ∃ b₁ b₂, p = .ok b₁ ∧ q = .ok b₂ ∧ bytes = b₁ ++ b₂ := by
  unfold Field.encode
  rw [h]
  cases p <;> cases q <;> simp [Except.map, bind, Except.bind, pure, Except.pure, eq_comm]

lemma word_eq_ok {n : Int} : Field.word n = .ok bytes ↔ fitsWord n = true ∧ bytes = wordBytes n := by
  unfold Field.word
  by_cases h : fitsWord n = true <;> simp [h, eq_comm]

/-- The bytes of a text are its length in two bytes and its content. -/
lemma text_eq_ok {s : Option String} : (Field.text s).encode = .ok bytes ↔
    ∃ content : Bytes, content = (s.getD "").toUTF8.data.toList ∧ content.length ≤ 0xffff ∧
      bytes = bigEndian 2 content.length ++ content := by
  by_cases hlong : 0xffff < (s.getD "").toUTF8.data.toList.length
  · have hpieces : (Field.text s).pieces = [.error (.textTooLong _)] := if_pos hlong
    rw [encode_one hpieces]
    constructor
    · intro h
      cases h
    · rintro ⟨content, rfl, hshort, -⟩
      omega
  · have hpieces : (Field.text s).pieces = [.ok (bigEndian 2 _), .ok _] := if_neg hlong
    rw [encode_two hpieces]
    constructor
    · rintro ⟨b₁, b₂, h₁, h₂, rfl⟩
      cases h₁
      cases h₂
      exact ⟨_, rfl, not_lt.mp hlong, rfl⟩
    · rintro ⟨content, rfl, -, rfl⟩
      exact ⟨_, _, rfl, rfl, rfl⟩

lemma reads_int {n : Int} (h : fitsWord n = true) : Reads Reader.int (wordBytes n) n := by
  have hlength := length_wordBytes n
  have htake : Reads (Reader.take 4) (wordBytes n) (wordBytes n) :=
    Reads.take_of_length (by rw [hlength]; rfl) (by omega)
  have hmap := htake.map ofWordBytes
  rwa [ofWordBytes_wordBytes h] at hmap

lemma reads_length {n : Nat} (h : fitsWord n = true) : Reads Reader.length (wordBytes n) n := by
  have hcheck : Reads (do if (n : Int) < 0 then Reader.fault (.negativeLength n)
                          return (n : Int).toNat) [] n := by
    rw [if_neg (by omega)]
    exact Reads.pure n
  have hread : Reads Reader.length (wordBytes n ++ []) n := (reads_int h).bind hcheck
  rwa [List.append_nil] at hread

end Pieces

namespace Decodes

/-- What is refused is never written. -/
lemma refused (e : Error) (r : Reader β) (v : β) : Decodes [.refused e] r v := by
  intro bytes hbytes
  rw [encodeAll_singleton, encode_one rfl] at hbytes
  cases hbytes

theorem int (n : Int) : Decodes [.int n] Reader.int n := by
  refine Decodes.of_encode fun bytes hbytes => ?_
  rw [encode_one rfl] at hbytes
  obtain ⟨hfit, rfl⟩ := word_eq_ok.mp hbytes
  exact reads_int hfit

theorem length (n : Nat) : Decodes [.int n] Reader.length n := by
  refine Decodes.of_encode fun bytes hbytes => ?_
  rw [encode_one rfl] at hbytes
  obtain ⟨hfit, rfl⟩ := word_eq_ok.mp hbytes
  exact reads_length hfit

theorem bool (b : Bool) : Decodes [.bool b] Reader.bool b := by
  refine Decodes.of_encode fun bytes hbytes => ?_
  rw [encode_one rfl] at hbytes
  cases hbytes
  have htake : Reads (Reader.take 1) [if b then (1 : UInt8) else 0] [if b then (1 : UInt8) else 0] :=
    Reads.take_of_length rfl (by simp)
  have hmap := htake.map fun bytes => ofBigEndian bytes != 0
  cases b <;> exact hmap

/-- A number written in single precision is read back as it was rounded. -/
theorem single (x : Stored Float) : Decodes [.single x] Reader.single x.narrow.value := by
  refine Decodes.of_encode fun bytes hbytes => ?_
  have hwritten : bytes = singleBytes x.narrow := by
    by_cases hrange : (isFinite x.value && !isFinite x.narrow.widen.value) = true
    · rw [encode_one (p := .error .overflow) (by rw [Field.pieces, if_pos hrange])] at hbytes
      cases hbytes
    · rw [encode_one (p := .ok (singleBytes x.narrow)) (by rw [Field.pieces, if_neg hrange])] at hbytes
      cases hbytes
      rfl
  subst hwritten
  have hlength := length_singleBytes x.narrow
  have htake : Reads (Reader.take 4) (singleBytes x.narrow) (singleBytes x.narrow) :=
    Reads.take_of_length (by rw [hlength]; rfl) (by omega)
  have hmap := htake.map ofSingleBytes
  rwa [ofSingleBytes_singleBytes] at hmap

theorem double (x : Stored Float) : Decodes [.double x] Reader.double x.value := by
  refine Decodes.of_encode fun bytes hbytes => ?_
  rw [encode_one rfl] at hbytes
  cases hbytes
  have hlength := length_doubleBytes x
  have htake : Reads (Reader.take 8) (doubleBytes x) (doubleBytes x) :=
    Reads.take_of_length (by rw [hlength]; rfl) (by omega)
  have hmap := htake.map ofDoubleBytes
  rwa [ofDoubleBytes_doubleBytes] at hmap

/-- A text is read back from its bytes; no text at all as the empty one. -/
theorem text (s : Option String) : Decodes [.text s] Reader.text (s.getD "") := by
  refine Decodes.of_encode fun bytes hbytes => ?_
  obtain ⟨content, hcontent, hshort, rfl⟩ := text_eq_ok.mp hbytes
  have hsizeBytes : ofBigEndian (bigEndian 2 content.length) = content.length :=
    ofBigEndian_bigEndian (by omega)
  have hvalid : String.fromUTF8? ⟨content.toArray⟩ = some (s.getD "") := by
    subst hcontent
    simp [String.fromUTF8?, String.fromUTF8, (s.getD "").isValidUTF8]
  have hfirst : Reads (Reader.take 2) (bigEndian 2 content.length) (bigEndian 2 content.length) :=
    Reads.take_of_length (by rw [length_bigEndian]; rfl) (by rw [length_bigEndian]; decide)
  have hsecond : Reads (Reader.take (ofBigEndian (bigEndian 2 content.length))) content content :=
    Reads.take_of_length (by rw [hsizeBytes]) (by omega)
  have hread : Reads Reader.text (bigEndian 2 content.length ++ (content ++ [])) (s.getD "") := by
    refine hfirst.bind (hsecond.bind ?_)
    rw [hvalid]
    exact Reads.pure _
  rwa [List.append_nil] at hread

/-- Single precision numbers, read by their count. Their bytes have to be as many as a machine word
can count. -/
theorem singles {xs : List (Stored Float32)} {count : Int} (hcount : count = xs.length)
    (hroom : xs.length * 4 < 0x8000000000000000) :
    Decodes [.singles xs] (Reader.singles count) (xs.map fun x => x.value) := by
  subst hcount
  refine Decodes.of_encode fun bytes hbytes => ?_
  rw [encode_one rfl] at hbytes
  cases hbytes
  have hlength := length_flatMap_of_const length_singleBytes xs
  have htake : Reads (Reader.take ((xs.length : Int) * 4)) (xs.flatMap singleBytes)
      (xs.flatMap singleBytes) :=
    Reads.take_of_length (by rw [hlength]; push_cast; rfl) (by rwa [hlength])
  have hmap := htake.map fun bytes =>
    (Reader.groups 4 (xs.length : Int).toNat bytes).map ofSingleBytes
  rw [Int.toNat_natCast, groups_flatMap length_singleBytes, List.map_map] at hmap
  rwa [show ofSingleBytes ∘ singleBytes = fun x => x.value from funext ofSingleBytes_singleBytes]
    at hmap

theorem doubles (xs : List (Stored Float)) :
    Decodes [.doubles xs] Reader.doubles (xs.map fun x => x.value) := by
  refine Decodes.of_encode fun bytes hbytes => ?_
  obtain ⟨b₁, b₂, hword, hrest, rfl⟩ := (encode_two rfl).mp hbytes
  obtain ⟨hfit, rfl⟩ := word_eq_ok.mp hword
  cases hrest
  have hlength := length_flatMap_of_const length_doubleBytes xs
  have hcount := lt_of_fitsWord hfit
  have htake : Reads (Reader.take ((xs.length : Int) * 8)) (xs.flatMap doubleBytes)
      (xs.flatMap doubleBytes) :=
    Reads.take_of_length (by rw [hlength]; push_cast; rfl) (by omega)
  have hmap := htake.map fun bytes => (Reader.groups 8 xs.length bytes).map ofDoubleBytes
  rw [groups_flatMap length_doubleBytes, List.map_map] at hmap
  rw [show ofDoubleBytes ∘ doubleBytes = fun x => x.value from funext ofDoubleBytes_doubleBytes]
    at hmap
  exact (reads_length hfit).bind hmap

theorem ints (ns : List Int) : Decodes [.ints ns] Reader.ints ns := by
  refine Decodes.of_encode fun bytes hbytes => ?_
  obtain ⟨b₁, b₂, hword, hrest, rfl⟩ := (encode_two rfl).mp hbytes
  obtain ⟨hfit, rfl⟩ := word_eq_ok.mp hword
  have hall : ns.all fitsWord = true := by
    by_contra hnot
    rw [if_neg hnot] at hrest
    cases hrest
  rw [if_pos hall] at hrest
  cases hrest
  have hlength := length_flatMap_of_const length_wordBytes ns
  have hcount := lt_of_fitsWord hfit
  have htake : Reads (Reader.take ((ns.length : Int) * 4)) (ns.flatMap wordBytes)
      (ns.flatMap wordBytes) :=
    Reads.take_of_length (by rw [hlength]; push_cast; rfl) (by omega)
  have hmap := htake.map fun bytes => (Reader.groups 4 ns.length bytes).map ofWordBytes
  have hback : (ns.map wordBytes).map ofWordBytes = ns := by
    rw [List.map_map]
    refine (List.map_congr_left fun n hn => ?_).trans (List.map_id _)
    exact ofWordBytes_wordBytes (List.all_eq_true.mp hall n hn)
  rw [groups_flatMap length_wordBytes, hback] at hmap
  exact (reads_length hfit).bind hmap

end Decodes

end WideDeep.Proofs
