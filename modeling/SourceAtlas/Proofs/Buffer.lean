import SourceAtlas.Proofs.Utf8
import SourceAtlas.Text.Buffer

/-!
# Accesses to a buffer

What an access does at the end of a prefix, so that a proof can follow the characters of a text
while the buffer counts bytes: `loop_char` takes a loop over one character, whatever the number of
its bytes. An edit that comes out without a `Fault` is safe, and ends.

`Visits` are the states that a loop comes to. Where each turn counts by one at most, the count stays
below the number of bytes that the loop is over (`Visits.natAbs_le`), and in a text of fewer than
2^31 bytes it is what a counter of 32 bits holds (`Visits.toInt_ofInt`).
-/

namespace SourceAtlas

@[simp] theorem Edit.ok_bind {α β : Type} (a : α) (f : α → Edit β) :
    (Except.ok a >>= f : Edit β) = f a := rfl

@[simp] theorem Edit.map_ok {α β : Type} (f : α → β) (a : α) :
    (f <$> (Except.ok a : Edit α)) = .ok (f a) := rfl

@[simp] theorem Edit.pure_eq {α : Type} (a : α) : (pure a : Edit α) = .ok a := rfl

namespace Buffer

open Utf8

/-! ### Accesses -/

section

variable {bs before after : List UInt8} {i : Nat}

/-- Reads the first byte after a part of the buffer. -/
theorem read_at (hbs : bs = before ++ after) (hi : i = before.length) {b : UInt8}
    {rest : List UInt8} (hafter : after = b :: rest) : read bs i = .ok (Char.ofUInt8 b) := by
  rw [hbs, hi, hafter, read, List.getElem?_append_right (Nat.le_refl _), Nat.sub_self,
    List.getElem?_cons_zero]

/-- What is read stands in the buffer. -/
theorem lt_length_of_read {c : Char} (h : read bs i = .ok c) : i < bs.length := by
  rw [read] at h
  split at h
  · rename_i b hb
    exact (List.getElem?_eq_some_iff.mp hb).1
  · cases h

theorem peek?_at (hbs : bs = before ++ after) (hi : i = before.length) :
    peek? bs i = after.head?.map Char.ofUInt8 := by
  rw [hbs, hi, peek?, List.getElem?_append_right (Nat.le_refl _), Nat.sub_self,
    List.head?_eq_getElem?]

/-- Writes over the first byte after a part of the buffer. -/
theorem put_at (hbs : bs = before ++ after) (hi : i = before.length) {b : UInt8}
    {rest : List UInt8} (hafter : after = b :: rest) (c : Char) :
    put bs i c = .ok (before ++ c.toUInt8 :: rest) := by
  rw [put, if_pos (by rw [hbs, hi, hafter, List.length_append, List.length_cons]; omega), hbs, hi,
    hafter, List.set_append_right _ _ (Nat.le_refl _), Nat.sub_self, List.set_cons_zero]

variable {part : List UInt8} {stop : Nat}

/-- Takes out a part of the buffer. -/
theorem slice_at (hbs : bs = before ++ part ++ after) (hi : i = before.length)
    (hstop : stop = before.length + part.length) : slice bs i stop = .ok part := by
  have hlength : stop = (before ++ part).length := by rw [hstop, List.length_append]
  rw [slice, if_pos]
  · rw [hbs, hlength, List.take_left, hi, List.drop_left]
  · rw [Bool.and_eq_true, decide_eq_true_eq, decide_eq_true_eq, hbs, List.length_append]
    omega

theorem slice_to_end (hi : i ≤ bs.length) : slice bs i bs.length = .ok (bs.drop i) := by
  rw [slice, decide_eq_true hi, decide_eq_true (Nat.le_refl _), Bool.and_self, if_pos rfl,
    List.take_length]

theorem take_drop_at (hbs : bs = before ++ part ++ after) (hi : i = before.length)
    (hstop : stop = before.length + part.length) : bs.take i = before ∧ bs.drop stop = after := by
  have hlength : stop = (before ++ part).length := by rw [hstop, List.length_append]
  constructor
  · rw [hbs, hi, List.append_assoc, List.take_left]
  · rw [hbs, hlength, List.drop_left]

/-- Copies bytes over a part of the same length. -/
theorem copyOver_at (hbs : bs = before ++ part ++ after) (hi : i = before.length)
    (hstop : stop = before.length + part.length) {new : List UInt8}
    (hnew : new.length = part.length) :
    copyOver bs i stop new = .ok (before ++ new ++ after) := by
  obtain ⟨htake, hdrop⟩ := take_drop_at hbs hi hstop
  rw [copyOver, slice_at hbs hi hstop, Edit.ok_bind, if_pos hnew, htake, hdrop, Edit.pure_eq]

/-- Blanks a part of the buffer. -/
theorem blank_at (hbs : bs = before ++ part ++ after) (hi : i = before.length)
    (hstop : stop = before.length + part.length) :
    blank bs i stop = .ok (before ++ part.map blankByte ++ after) := by
  have hmin : min stop bs.length = stop := by
    rw [hbs, List.length_append, List.length_append]
    omega
  obtain ⟨htake, hdrop⟩ := take_drop_at hbs hi hstop
  rw [blank, hmin, slice_at hbs hi hstop, Edit.ok_bind, htake, hdrop, Edit.pure_eq]

end

/-! ### Accesses between characters -/

/-- The buffer holds the text of `before` and `cs`, and a position stands between them. -/
def At (bs : List UInt8) (before cs : List Char) : Prop :=
  bs = encode before ++ encode cs

namespace At

variable {bs : List UInt8} {before part cs : List Char} {c : Char} {i : Nat}

theorem length (h : At bs before cs) :
    bs.length = Chars.byteLength before + Chars.byteLength cs := by
  rw [h, List.length_append, length_encode, length_encode]

/-- The position moves on behind a part of the text. -/
theorem append (h : At bs before (part ++ cs)) : At bs (before ++ part) cs := by
  rw [At, h, encode_append, encode_append, List.append_assoc]

/-- The position moves on behind a character. -/
theorem next (h : At bs before (c :: cs)) : At bs (before ++ [c]) cs :=
  append (show At bs before ([c] ++ cs) from h)

theorem next_next {d : Char} (h : At bs before (c :: d :: cs)) : At bs (before ++ [c, d]) cs :=
  append (show At bs before ([c, d] ++ cs) from h)

theorem length_eq (h : At bs before []) : bs.length = Chars.byteLength before := by
  rw [h.length, Chars.byteLength_nil, Nat.add_zero]

/-- A character ends within the buffer. -/
theorem size_le (h : At bs before (c :: cs)) :
    Chars.byteLength before + c.utf8Size ≤ bs.length := by
  rw [h.length, Chars.byteLength_cons]
  omega

/-- Before a character a position is within the buffer. -/
theorem lt_length (h : At bs before (c :: cs)) : Chars.byteLength before < bs.length := by
  have := h.size_le
  have := c.utf8Size_pos
  omega

theorem min_eq (h : At bs before cs) :
    min (Chars.byteLength before) bs.length = Chars.byteLength before := by
  have := h.length
  omega

/-- A position that is past the end stands for the end. -/
theorem length_le_of_min (h : At bs before []) (hi : min i bs.length = Chars.byteLength before) :
    bs.length ≤ i := by
  have hlength := h.length_eq
  omega

/-- A position before a character is not past the end. -/
theorem eq_of_min (h : At bs before (c :: cs))
    (hi : min i bs.length = Chars.byteLength before) : i = Chars.byteLength before := by
  have := h.lt_length
  omega

theorem drop_eq (h : At bs before cs) : bs.drop (Chars.byteLength before) = encode cs := by
  rw [h, ← length_encode, List.drop_left]

/-- At a character its first byte is read. -/
theorem read_eq (h : At bs before (c :: cs)) :
    read bs (Chars.byteLength before) = .ok (Char.ofUInt8 (lead c)) :=
  read_at h (length_encode before).symm (by rw [encode_cons, encodeChar_eq, List.cons_append])

theorem peek?_eq (h : At bs before cs) :
    peek? bs (Chars.byteLength before) = cs.head?.map fun c => Char.ofUInt8 (lead c) := by
  rw [peek?_at h (length_encode before).symm]
  cases cs with
  | nil => rfl
  | cons c cs => rw [encode_cons, encodeChar_eq]; rfl

/-- The byte before a position tells the character apart that ends there. -/
theorem read_last (h : At bs (before ++ [c]) cs)
    {p : Char → Bool} (hp : AsciiOnly p) :
    ∃ d, read bs (Chars.byteLength (before ++ [c]) - 1) = .ok d ∧ p d = p c := by
  obtain ⟨init, last, hlast, -, htest⟩ := encodeChar_last c
  refine ⟨Char.ofUInt8 last, ?_, htest p hp⟩
  -- the byte before the position is the last one of `c`
  have hsplit : bs = (encode before ++ init) ++ ([last] ++ encode cs) := by
    rw [h, encode_append, encode_singleton, hlast]
    simp only [List.append_assoc]
  apply read_at hsplit _ rfl
  have hlength := congrArg List.length hlast
  rw [String.length_utf8EncodeChar, List.length_append, List.length_singleton] at hlength
  rw [Chars.byteLength_concat, hlength, List.length_append, length_encode]
  omega

/-- A test for two characters of ASCII, one after the other. -/
theorem pair_eq (h : At bs before (c :: cs)) {a b : Char} (ha : a.toNat < 128)
    (hb : b.toNat < 128) :
    (c == a && peek? bs (Chars.byteLength before + 1) == some b)
      = (c == a && cs.head? == some b) := by
  by_cases hc : c = a
  · -- the first character is of ASCII, so the second one starts at the next byte
    subst hc
    have hpeek := h.next.peek?_eq
    rw [Chars.byteLength_concat, size_of_toNat_lt ha] at hpeek
    rw [hpeek]
    cases cs with
    | nil => rfl
    | cons d cs => simp only [List.head?_cons, Option.map_some, Option.some_beq_some, lead_beq hb]
  · rw [beq_eq_false_iff_ne.mpr hc, Bool.false_and, Bool.false_and]

/-- A text can be cut between characters. -/
theorem onBoundary_eq (h : At bs before cs) : onBoundary bs (Chars.byteLength before) = true := by
  cases cs with
  | nil =>
    rw [onBoundary, h.length, Chars.byteLength_nil, Nat.add_zero, beq_self_eq_true, Bool.true_or]
  | cons c cs =>
    have hget : bs[Chars.byteLength before]? = some (lead c) := by
      rw [h, ← length_encode, List.getElem?_append_right (Nat.le_refl _), Nat.sub_self,
        encode_cons, encodeChar_eq, List.cons_append, List.getElem?_cons_zero]
    rw [onBoundary, hget, Option.map_some, Option.getD_some, decide_eq_true (isFirst_lead c),
      Bool.or_true]

theorem split (h : At bs before (part ++ cs)) :
    bs = encode before ++ encode part ++ encode cs := by
  rw [h, encode_append, List.append_assoc]

/-- Cutting between characters gives those in between. -/
theorem cut_eq (h : At bs before (part ++ cs)) :
    cut bs (Chars.byteLength before) (Chars.byteLength before + Chars.byteLength part)
      = .ok part := by
  have hend := h.append.onBoundary_eq
  rw [Chars.byteLength_append] at hend
  rw [cut, slice_at h.split (length_encode before).symm (by rw [length_encode, length_encode]),
    Edit.ok_bind, h.onBoundary_eq, hend, Bool.and_self, if_pos rfl, decode_encode, Edit.pure_eq]

end At

/-- Writes a character of ASCII over another. -/
theorem put_char {out : List UInt8} {cs : List Char} {i : Nat} {a c : Char} (ha : a.toNat < 128)
    (hc : c.toNat < 128) (hi : i = out.length) :
    put (out ++ encode (a :: cs)) i c = .ok (out ++ encode [c] ++ encode cs) := by
  rw [put_at rfl hi (by rw [encode_cons, encodeChar_of_ascii ha]; rfl), encode_singleton,
    encodeChar_of_ascii hc, List.append_assoc]
  rfl

/-- A buffer that holds a text is read as that text. -/
theorem text_encode (cs : List Char) : text (encode cs) = .ok cs := by
  rw [text, decode_encode, if_pos rfl]

/-! ### Loops -/

section

variable {τ : Type} {size i : Nat} {turn : Nat → τ → Edit (ForInStep (Nat × τ))} {t : τ}

/-- A loop that starts behind its bytes is over. -/
theorem loop_end (hi : size ≤ i) : loop size turn i t = .ok (i, t) := by
  rw [loop, if_neg (by omega)]

theorem loop_done (hi : i < size) {r : Nat × τ} (hturn : turn i t = .ok (.done r)) :
    loop size turn i t = .ok r := by
  rw [loop, if_pos hi, hturn]

/-- A loop goes on where its turn says. -/
theorem loop_yield (hi : i < size) {j : Nat} {t' : τ} (hturn : turn i t = .ok (.yield (j, t')))
    (hj : i < j) : loop size turn i t = loop size turn j t' := by
  rw [loop, if_pos hi, hturn]
  dsimp only
  rw [if_pos hj]

/-- A loop passes over bytes outside ASCII, if each of its turns does. -/
theorem loop_high {bs before high after : List UInt8} (hbs : bs = before ++ high ++ after)
    (hi : i = before.length) (hhigh : ∀ b ∈ high, 128 ≤ b.toNat) (hsize : i + high.length ≤ size)
    (hturn : ∀ j c, read bs j = .ok c → 128 ≤ c.toNat → turn j t = .ok (.yield (j + 1, t))) :
    loop size turn i t = loop size turn (i + high.length) t := by
  induction high generalizing i before with
  | nil => rfl
  | cons b high ih =>
    rw [List.length_cons] at hsize ⊢
    have hread : read bs i = .ok (Char.ofUInt8 b) :=
      read_at (hbs.trans (List.append_assoc ..)) hi rfl
    have hb : 128 ≤ (Char.ofUInt8 b).toNat := by
      rw [toNat_ofUInt8]
      exact hhigh b (List.mem_cons_self ..)
    have hbs' : bs = before ++ [b] ++ high ++ after := by
      rw [hbs, List.append_assoc before [b], List.singleton_append]
    have hi' : i + 1 = (before ++ [b]).length := by
      rw [hi, List.length_append, List.length_singleton]
    -- one byte is passed, and the others by the induction
    have hnext := ih hbs' hi' (fun b' hb' => hhigh b' (List.mem_cons_of_mem _ hb')) (by omega)
    rw [loop_yield (by omega) (hturn i _ hread hb) (Nat.lt_succ_self i), hnext]
    congr 1
    omega

variable {bs : List UInt8} {before cs : List Char} {c : Char}

/-- A loop passes over what a character has after its first byte. -/
theorem loop_trail (hbs : At bs before (c :: cs))
    (hsize : Chars.byteLength before + c.utf8Size ≤ size)
    (hturn : ∀ j d, read bs j = .ok d → 128 ≤ d.toNat → turn j t = .ok (.yield (j + 1, t))) :
    loop size turn (Chars.byteLength before + 1) t
      = loop size turn (Chars.byteLength before + c.utf8Size) t := by
  have hlength := length_trail c
  have hbs' : bs = encode before ++ [lead c] ++ trail c ++ encode cs := by
    rw [hbs, encode_cons, encodeChar_eq, List.append_assoc, List.append_assoc]
    rfl
  have hi : Chars.byteLength before + 1 = (encode before ++ [lead c]).length := by
    rw [List.length_append, List.length_singleton, length_encode]
  rw [loop_high hbs' hi (fun b hb => high_of_mem_trail hb) (by omega) hturn]
  congr 1
  omega

/-- A loop passes over a character, if its turn at the first byte goes on to the next. -/
theorem loop_char (hbs : At bs before (c :: cs))
    (hsize : Chars.byteLength before + c.utf8Size ≤ size) {t' : τ}
    (hlead : turn (Chars.byteLength before) t = .ok (.yield (Chars.byteLength before + 1, t')))
    (hturn : ∀ j d, read bs j = .ok d → 128 ≤ d.toNat → turn j t' = .ok (.yield (j + 1, t'))) :
    loop size turn (Chars.byteLength before) t
      = loop size turn (Chars.byteLength (before ++ [c])) t' := by
  have hpos := c.utf8Size_pos
  rw [loop_yield (by omega) hlead (Nat.lt_succ_self _), loop_trail hbs hsize hturn,
    Chars.byteLength_concat]

/-- A loop passes over a character of ASCII and the character it escapes. -/
theorem loop_escape {d : Char} (hbs : At bs before (c :: d :: cs)) (hc : c.toNat < 128)
    (hsize : Chars.byteLength (before ++ [c]) + d.utf8Size ≤ size)
    (hlead : turn (Chars.byteLength before) t = .ok (.yield (Chars.byteLength before + 2, t)))
    (hturn : ∀ j e, read bs j = .ok e → 128 ≤ e.toNat → turn j t = .ok (.yield (j + 1, t))) :
    loop size turn (Chars.byteLength before) t
      = loop size turn (Chars.byteLength (before ++ [c, d])) t := by
  have hskip := loop_trail hbs.next hsize hturn
  rw [Chars.byteLength_concat, size_of_toNat_lt hc] at hskip hsize
  rw [loop_yield (by omega) hlead (by omega), List.append_cons, Chars.byteLength_concat,
    Chars.byteLength_concat, size_of_toNat_lt hc]
  exact hskip

end

/-! ### Counts kept by a loop -/

/-- The positions and states that a loop comes to, from those it starts with. -/
inductive Visits {τ : Type} (size : Nat) (turn : Nat → τ → Edit (ForInStep (Nat × τ))) (i : Nat)
    (t : τ) : Nat → τ → Prop where
  | start : Visits size turn i t i t
  | next {j k : Nat} {u v : τ} (before : Visits size turn i t j u) (hsize : j < size)
      (hturn : turn j u = .ok (.yield (k, v))) (hmoves : j < k) : Visits size turn i t k v

/-- A turn that goes on has moved the count by one at most. -/
def CountsByOne (turn : Nat → Int → Edit (ForInStep (Nat × Int))) : Prop :=
  ∀ j depth k depth', turn j depth = .ok (.yield (k, depth')) → (depth' - depth).natAbs ≤ 1

namespace Visits

variable {size i j : Nat} {depth : Int} {turn : Nat → Int → Edit (ForInStep (Nat × Int))}

/-- A count from zero has moved by no more than the bytes between the start and the position. -/
theorem natAbs_le (hcounts : CountsByOne turn) (h : Visits size turn i 0 j depth) :
    i ≤ j ∧ depth.natAbs ≤ min j size - i := by
  -- a turn is taken below `size` and moves on, so each step of the count has a byte of its own
  induction h with
  | start => exact ⟨Nat.le_refl i, Nat.zero_le _⟩
  | next before hsize hturn hmoves ih =>
    have hstep := hcounts _ _ _ _ hturn
    omega

/-- In a text of fewer than 2^31 bytes, a counter of 32 bits holds the count itself. -/
theorem toInt_ofInt (hcounts : CountsByOne turn) (hsize : size < 2147483648)
    (h : Visits size turn i 0 j depth) : (Int32.ofInt depth).toInt = depth := by
  have hbound := (natAbs_le hcounts h).2
  exact Int32.toInt_ofInt_of_le (by omega) (by omega)

end Visits

end Buffer

end SourceAtlas
