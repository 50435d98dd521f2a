import Mathlib.Data.List.DropRight
import Mathlib.Data.List.Infix

/-!
# Python text

The scripts under `python/` work on `str` values.  Every text they handle is a
literal, an argument, or the result of a strict UTF-8 decoding, so a `str` is a
list of Unicode scalar values here, and `Char` is exactly that.  A lone
surrogate, which Python also allows in a `str`, does not occur: `encode` would
raise on it and `decode` never makes one.

The codec is the one of the Lean core library, read at `List UInt8`.
`encode` and `decode` are inverse to each other, and `decode_prefix` says what
decodes from a datagram that was cut off.
-/

namespace PtsTools.Python

/-- A Python `str`. -/
abbrev Str := List Char

/-- A Python `bytes`. -/
abbrev Bytes := List UInt8

/-- `==` on texts is equality. -/
instance lawfulBEqStr : LawfulBEq Str := inferInstance

/-- Whether all characters of a text have a property is decided along the text.
`Char` is finite, so there is another way to decide it, which is of no use here. -/
instance (priority := high) decidableForallMem {p : Char → Prop} [DecidablePred p] (s : Str) :
    Decidable (∀ c ∈ s, p c) :=
  List.decidableBAll p s

/-! ## The UTF-8 codec -/

/-- `s.encode()`. -/
def encode (s : Str) : Bytes := s.flatMap String.utf8EncodeChar

/-- `b.decode("utf8")`.  The answer is `none` where Python raises
`UnicodeDecodeError`. -/
def decode (b : Bytes) : Option Str := b.toByteArray.utf8Decode?.map Array.toList

@[simp] theorem encode_nil : encode [] = [] := rfl

@[simp] theorem encode_append (s t : Str) : encode (s ++ t) = encode s ++ encode t := by
  simp [encode]

theorem toByteArray_encode (s : Str) : (encode s).toByteArray = s.utf8Encode := rfl

/-- The round trip of the codec. -/
theorem decode_encode (s : Str) : decode (encode s) = some s := by
  rw [decode, toByteArray_encode, List.utf8Decode?_utf8Encode]
  simp

theorem encode_injective {s t : Str} (h : encode s = encode t) : s = t := by
  have hd := decode_encode s
  rw [h, decode_encode t] at hd
  exact (Option.some_inj.mp hd).symm

/-- Only the encoding of a text decodes to it. -/
theorem encode_of_decode {b : Bytes} {s : Str} (h : decode b = some s) : encode s = b := by
  rw [decode, Option.map_eq_some_iff] at h
  obtain ⟨a, ha, rfl⟩ := h
  have hs : b.toByteArray.utf8Decode?.isSome := by rw [ha]; rfl
  have hget : b.toByteArray.utf8Decode?.get hs = a := by simp [ha]
  have henc : ((b.toByteArray.utf8Decode?.get hs).toList).utf8Encode = b.toByteArray :=
    ByteArray.utf8Encode_get_utf8Decode?
  rw [hget, ← toByteArray_encode] at henc
  simpa using congrArg (fun x : ByteArray => x.data.toList) henc

/-- Every character takes a byte or more. -/
theorem length_le_length_encode (s : Str) : s.length ≤ (encode s).length := by
  induction s with
  | nil => simp
  | cons c s ih =>
    have hc : 0 < (String.utf8EncodeChar c).length :=
      List.length_pos_iff.mpr String.utf8EncodeChar_ne_nil
    simp only [encode, List.flatMap_cons, List.length_append, List.length_cons] at ih ⊢
    omega

/-- What decodes from the first bytes of an encoded text is a prefix of that
text. -/
theorem decode_prefix {b : Bytes} {s t : Str} (hb : b <+: encode s) (h : decode b = some t) :
    t <+: s := by
  obtain ⟨rest, hrest⟩ := hb
  rw [← encode_of_decode h] at hrest
  refine List.isPrefix_of_utf8Encode_append_eq_utf8Encode rest.toByteArray ?_
  rw [← toByteArray_encode, ← toByteArray_encode, ← hrest]
  simp

/-! ## The `str` methods of the scripts -/

/-- `c.isspace()`, the characters that `str.split` splits at. -/
def isspace (c : Char) : Bool :=
  c.toNat ∈ [0x9, 0xa, 0xb, 0xc, 0xd, 0x1c, 0x1d, 0x1e, 0x1f, 0x20, 0x85, 0xa0, 0x1680,
    0x2000, 0x2001, 0x2002, 0x2003, 0x2004, 0x2005, 0x2006, 0x2007, 0x2008, 0x2009, 0x200a,
    0x2028, 0x2029, 0x202f, 0x205f, 0x3000]

/-- `s.split()`. -/
def split (s : Str) : List Str := (s.splitOnP isspace).filter (· ≠ [])

/-- `s.strip(q)` for a single character `q`. -/
def strip (q : Char) (s : Str) : Str := (s.dropWhile (· = q)).rdropWhile (· = q)

/-- `sep.join(parts)`. -/
def join (sep : Str) (parts : List Str) : Str := sep.intercalate parts

/-- `s.replace(a, b)` for single characters `a` and `b`. -/
def replaceChar (a b : Char) (s : Str) : Str := s.map fun c => if c = a then b else c

/-- `os.path.basename(p)` of the POSIX scripts: what follows the last slash. -/
def basename (p : Str) : Str := p.rtakeWhile (· ≠ '/')

theorem replaceChar_append (a b : Char) (s t : Str) :
    replaceChar a b (s ++ t) = replaceChar a b s ++ replaceChar a b t := by
  rw [replaceChar, List.map_append, replaceChar, replaceChar]

/-- A text without the character is not changed by its replacement. -/
theorem replaceChar_eq_self {a b : Char} {s : Str} (h : a ∉ s) : replaceChar a b s = s := by
  unfold replaceChar
  refine (List.map_congr_left fun c hc => ?_).trans (List.map_id s)
  have hca : c ≠ a := by
    intro heq
    subst heq
    exact h hc
  rw [if_neg hca, id]

theorem join_cons {sep : Char} {parts : List Str} (hne : parts ≠ []) (v : Str) :
    join [sep] (v :: parts) = v ++ sep :: join [sep] parts := by
  obtain ⟨w, parts, rfl⟩ := List.exists_cons_of_ne_nil hne
  rw [join, List.intercalate_cons_cons, List.append_assoc, List.singleton_append, join]

/-- Parts without the separator are read off the joined text. -/
theorem join_inj {sep : Char} {vs ws : List Str} (hvs : ∀ v ∈ vs, sep ∉ v)
    (hws : ∀ w ∈ ws, sep ∉ w) (hvne : vs ≠ []) (hwne : ws ≠ []) :
    join [sep] vs = join [sep] ws ↔ vs = ws := by
  constructor
  · intro h
    have hs := congrArg (List.splitOn sep) h
    rwa [join, join, List.splitOn_intercalate _ hvs hvne, List.splitOn_intercalate _ hws hwne]
      at hs
  · intro heq
    subst heq
    rfl

/-- Replacing the separator is joining with the other one. -/
theorem replaceChar_join {a b : Char} {parts : List Str} (h : ∀ v ∈ parts, a ∉ v) :
    replaceChar a b (join [a] parts) = join [b] parts := by
  induction parts with
  | nil => rfl
  | cons v parts ih =>
    have hv := replaceChar_eq_self (b := b) (h v List.mem_cons_self)
    cases parts with
    | nil => simpa [join] using hv
    | cons w parts =>
      have ih' := ih fun u hu => h u (List.mem_cons_of_mem v hu)
      have hne : w :: parts ≠ [] := by simp
      rw [join_cons hne, join_cons hne, replaceChar_append, hv, ← ih']
      simp [replaceChar]

/-- What holds of a separator and of every part holds of every character of the
joined text. -/
theorem of_mem_join {P : Char → Prop} {sep : Char} {parts : List Str} (hsep : P sep)
    (h : ∀ v ∈ parts, ∀ c ∈ v, P c) : ∀ c ∈ join [sep] parts, P c := by
  induction parts with
  | nil => simp [join]
  | cons v parts ih =>
    have ih' := ih fun w hw => h w (List.mem_cons_of_mem v hw)
    cases parts with
    | nil => simpa [join] using h v List.mem_cons_self
    | cons w parts =>
      intro c hc
      rw [join, List.intercalate_cons_cons, List.mem_append, List.mem_append,
        List.mem_singleton] at hc
      rcases hc with (hc | rfl) | hc
      · exact h v List.mem_cons_self c hc
      · exact hsep
      · exact ih' c hc

/-- The characters of a piece come from the text, and none of them separates. -/
theorem of_mem_piece {p : Char → Bool} {s v : Str} (hv : v ∈ s.splitOnP p) {c : Char}
    (hc : c ∈ v) : c ∈ s ∧ p c = false := by
  induction s generalizing v with
  | nil => simp_all
  | cons a s ih =>
    rw [List.splitOnP_cons_eq_if_modifyHead] at hv
    split_ifs at hv with ha
    · rcases List.mem_cons.mp hv with rfl | hv
      · simp at hc
      · exact ⟨List.mem_cons_of_mem a (ih hv hc).1, (ih hv hc).2⟩
    · obtain ⟨w, ws, hs⟩ := List.exists_cons_of_ne_nil (List.splitOnP_ne_nil p s)
      rw [hs, List.modifyHead_cons] at hv
      have hih : ∀ u ∈ w :: ws, c ∈ u → c ∈ s ∧ p c = false := fun u hu hcu =>
        ih (by rw [hs]; exact hu) hcu
      rcases List.mem_cons.mp hv with rfl | hv
      · rcases List.mem_cons.mp hc with rfl | hc
        · exact ⟨List.mem_cons_self, by simpa using ha⟩
        · obtain ⟨hmem, hp⟩ := hih w List.mem_cons_self hc
          exact ⟨List.mem_cons_of_mem a hmem, hp⟩
      · obtain ⟨hmem, hp⟩ := hih v (List.mem_cons_of_mem w hv) hc
        exact ⟨List.mem_cons_of_mem a hmem, hp⟩

/-- The pieces of a text, joined with one character each, are as long as the text. -/
theorem length_join_splitOnP (p : Char → Bool) (sep : Char) (s : Str) :
    (join [sep] (s.splitOnP p)).length = s.length := by
  induction s with
  | nil => rfl
  | cons c s ih =>
    have hne := List.splitOnP_ne_nil p s
    rw [List.splitOnP_cons_eq_if_modifyHead]
    split_ifs with hc
    · rw [join_cons hne, List.nil_append, List.length_cons, ih, List.length_cons]
    · obtain ⟨v, vs, hv⟩ := List.exists_cons_of_ne_nil hne
      rw [hv] at ih ⊢
      rw [List.modifyHead_cons, List.length_cons, ← ih]
      cases vs with
      | nil => simp [join]
      | cons w vs =>
        rw [join_cons (List.cons_ne_nil w vs), join_cons (List.cons_ne_nil w vs)]
        simp

/-- Without some of the parts the joined text is no longer. -/
theorem length_join_filter_le (q : Str → Bool) (sep : Char) (parts : List Str) :
    (join [sep] (parts.filter q)).length ≤ (join [sep] parts).length := by
  induction parts with
  | nil => simp [join]
  | cons v parts ih =>
    by_cases hnil : parts = []
    · subst hnil
      cases hq : q v <;> simp [join, hq]
    · have hlen : (join [sep] (v :: parts)).length = v.length + 1 + (join [sep] parts).length := by
        rw [join_cons hnil, List.length_append, List.length_cons]
        omega
      cases hq : q v with
      | false =>
        rw [List.filter_cons_of_neg (by simp [hq]), hlen]
        omega
      | true =>
        rw [List.filter_cons_of_pos hq, hlen]
        by_cases hnone : parts.filter q = []
        · simp [hnone, join]
          omega
        · rw [join_cons hnone, List.length_append, List.length_cons]
          omega

/-- Only a text of separators has no nonempty piece. -/
theorem pieces_eq_nil_iff {p : Char → Bool} {s : Str} :
    (s.splitOnP p).filter (· ≠ []) = [] ↔ ∀ c ∈ s, p c = true := by
  induction s with
  | nil => simp
  | cons c s ih =>
    rw [List.splitOnP_cons_eq_if_modifyHead]
    split_ifs with hc
    · simpa [hc] using ih
    · obtain ⟨v, vs, hv⟩ := List.exists_cons_of_ne_nil (List.splitOnP_ne_nil p s)
      simp [hv, hc]

/-- A text with a character that is no white space has a piece. -/
theorem split_ne_nil {s : Str} {c : Char} (hc : c ∈ s) (hs : isspace c = false) :
    split s ≠ [] := by
  intro h
  have := pieces_eq_nil_iff.mp h c hc
  rw [hs] at this
  exact absurd this (by simp)

/-- A word in front of a white space is the first piece. -/
theorem split_word {w : Str} (hne : w ≠ []) (hw : ∀ c ∈ w, isspace c = false) {b : Char}
    (hb : isspace b = true) (s : Str) : split (w ++ b :: s) = w :: split s := by
  rw [split, List.splitOnP_append_cons_of_forall_mem hw b hb,
    List.filter_cons_of_pos (by simpa using hne), split]

/-- A text without `q` at either end is not changed by `strip`. -/
theorem strip_eq_self {q : Char} {s : Str} (h : q ∉ s) : strip q s = s := by
  have hd : s.dropWhile (· = q) = s := by
    cases s with
    | nil => rfl
    | cons c s =>
      have hc : ¬ c = q := fun hc => h (by rw [hc]; exact List.mem_cons_self)
      simp [hc]
  rw [strip, hd, List.rdropWhile_eq_self_iff]
  intro hne hlast
  have hq : s.getLast hne = q := of_decide_eq_true hlast
  exact h (by rw [← hq]; exact List.getLast_mem hne)

/-- The quotes around a text without them are what `strip` takes off. -/
theorem strip_quoted {q : Char} {s : Str} (h : q ∉ s) : strip q (q :: s ++ [q]) = s := by
  have hd : (q :: s ++ [q]).dropWhile (· = q) = (s ++ [q]).dropWhile (· = q) := by simp
  have hr : (s ++ [q]).rdropWhile (· = q) = s := by
    rw [List.rdropWhile_concat_pos _ _ _ (by simp)]
    rw [List.rdropWhile_eq_self_iff]
    intro hne hlast
    have hq : s.getLast hne = q := of_decide_eq_true hlast
    exact h (by rw [← hq]; exact List.getLast_mem hne)
  cases s with
  | nil => simp [strip]
  | cons c s =>
    have hc : ¬ c = q := fun hc => h (by rw [hc]; exact List.mem_cons_self)
    rw [strip, hd, List.cons_append, List.dropWhile_cons_of_neg (by simpa using hc),
      ← List.cons_append, hr]

end PtsTools.Python
