import Errand.Lib.Lines

/-
  Errand.Lib.Utf8 — `bytes.decode("utf-8", errors="replace")`, and a text whose bytes are
  decoded in pieces.

  The decoder holds the character that has begun: how many bytes it still needs, between what
  bounds the next one lies, and the bits so far. A byte out of bounds ends the character with
  U+FFFD and is read as a first byte; so does the end of the input. A list of pieces is read as
  its bytes with a mark behind each piece.

  Rules:
  - `decodePieces_marked`: reading the marked bytes is decoding piece by piece.
  - `decodePieces_reads`: where the bytes are a text's, each of its characters is read whole, or
    as two or more U+FFFD if a piece ends inside it.
  - `Reads.eq_iff`, `decodePieces_eq_iff`: the text is read exactly if no piece ends inside a
    character; `decode_encode`.
  - `Reads.countP_le`: no character but U+FFFD is read more often than it stands in the text.
  - `split_decodePieces`, `split_bytes`, `split_encode`: lines are the same before and behind.
  - `pieces_cases`: pieces of any bytes.
-/

namespace Errand.Lib.Utf8

def replacement : Char := '\uFFFD'

/-- A character that has begun. -/
structure Partial where
  needed : Nat
  lower : Nat
  upper : Nat
  value : Nat
  deriving DecidableEq, Repr

/-- A first byte. -/
def first (b : UInt8) : List Char × Option Partial :=
  let n := b.toNat
  if n < 0x80 then ([Char.ofNat n], none)
  else if 0xc2 ≤ n ∧ n ≤ 0xdf then ([], some ⟨1, 0x80, 0xbf, n - 0xc0⟩)
  else if n = 0xe0 then ([], some ⟨2, 0xa0, 0xbf, 0⟩)
  else if n = 0xed then ([], some ⟨2, 0x80, 0x9f, 0xd⟩)
  else if 0xe1 ≤ n ∧ n ≤ 0xef then ([], some ⟨2, 0x80, 0xbf, n - 0xe0⟩)
  else if n = 0xf0 then ([], some ⟨3, 0x90, 0xbf, 0⟩)
  else if n = 0xf4 then ([], some ⟨3, 0x80, 0x8f, 4⟩)
  else if 0xf1 ≤ n ∧ n ≤ 0xf3 then ([], some ⟨3, 0x80, 0xbf, n - 0xf0⟩)
  else ([replacement], none)

/-- The characters a byte ends, and the one it leaves begun. -/
def push : Option Partial → UInt8 → List Char × Option Partial
  | none, b => first b
  | some p, b =>
    let n := b.toNat
    if p.lower ≤ n ∧ n ≤ p.upper then
      let value := p.value * 64 + (n - 0x80)
      if p.needed = 1 then ([Char.ofNat value], none) else ([], some ⟨p.needed - 1, 0x80, 0xbf, value⟩)
    else (replacement :: (first b).1, (first b).2)

def flush : Option Partial → List Char
  | none => []
  | some _ => [replacement]

def decodeFrom : Option Partial → List UInt8 → List Char
  | p, [] => flush p
  | p, b :: bs => (push p b).1 ++ decodeFrom (push p b).2 bs

def decode (bs : List UInt8) : List Char := decodeFrom none bs

def encode (s : List Char) : List UInt8 := s.flatMap String.utf8EncodeChar

example : decode [0x61, 0xe2, 0x82, 0x62, 0xed, 0xa0, 0xe2, 0x82, 0xac] =
    ['a', replacement, 'b', replacement, replacement, '€'] := by decide

/-! ## Pieces -/

/-- The bytes of the pieces, with a mark behind each piece. -/
def marked (pieces : List (List UInt8)) : List (Option UInt8) := pieces.flatMap fun piece => piece.map some ++ [none]

/-- What a piece leaves begun ends with it. -/
def decodePieces : Option Partial → List (Option UInt8) → List Char
  | p, [] => flush p
  | p, none :: ts => flush p ++ decodePieces none ts
  | p, some b :: ts => (push p b).1 ++ decodePieces (push p b).2 ts

def bytes (ts : List (Option UInt8)) : List UInt8 := ts.filterMap id

@[simp] theorem bytes_nil : bytes [] = [] := rfl

@[simp] theorem bytes_none (ts : List (Option UInt8)) : bytes (none :: ts) = bytes ts := rfl

@[simp] theorem bytes_some (b : UInt8) (ts : List (Option UInt8)) : bytes (some b :: ts) = b :: bytes ts := rfl

theorem bytes_append (ts us : List (Option UInt8)) : bytes (ts ++ us) = bytes ts ++ bytes us := List.filterMap_append

theorem bytes_map_some (bs : List UInt8) : bytes (bs.map some) = bs := by
  induction bs with
  | nil => rfl
  | cons b bs ih => rw [List.map_cons, bytes_some, ih]

theorem bytes_marked (pieces : List (List UInt8)) : bytes (marked pieces) = pieces.flatten := by
  induction pieces with
  | nil => rfl
  | cons piece pieces ih =>
    rw [marked, List.flatMap_cons, ← marked, bytes_append, bytes_append, bytes_map_some, ih]
    simp

theorem decodePieces_some (p : Option Partial) (bs : List UInt8) (ts : List (Option UInt8)) :
    decodePieces p (bs.map some ++ none :: ts) = decodeFrom p bs ++ decodePieces none ts := by
  induction bs generalizing p with
  | nil => rfl
  | cons b bs ih => rw [List.map_cons, List.cons_append, decodePieces, ih, decodeFrom, List.append_assoc]

theorem decodePieces_marked (pieces : List (List UInt8)) : decodePieces none (marked pieces) = pieces.flatMap decode := by
  induction pieces with
  | nil => rfl
  | cons piece pieces ih =>
    rw [marked, List.flatMap_cons, ← marked, List.append_assoc, List.singleton_append, decodePieces_some, ih]
    rfl

def isContinuation (b : UInt8) : Bool := 0x80 ≤ b.toNat && b.toNat < 0xc0

/-- A piece ends in front of a byte that continues a character; `after`: the last one has ended
    here. -/
def divided : Bool → List (Option UInt8) → Bool
  | _, [] => false
  | _, none :: ts => divided true ts
  | after, some b :: ts => (after && isContinuation b) || divided false ts

/-! ## The bytes of a character -/

/-- What follows the first byte of a character, read from there. -/
def Spells : Partial → List UInt8 → Char → Prop
  | _, [], _ => False
  | p, b :: bs, c => isContinuation b = true ∧
      (bs = [] ∧ push (some p) b = ([c], none) ∨ ∃ q, push (some p) b = ([], some q) ∧ Spells q bs c)

theorem push_last {p : Partial} {b : UInt8} (hn : p.needed = 1) (hlow : p.lower ≤ b.toNat) (hup : b.toNat ≤ p.upper) :
    push (some p) b = ([Char.ofNat (p.value * 64 + (b.toNat - 0x80))], none) := by
  simp only [push]
  rw [if_pos ⟨hlow, hup⟩, if_pos hn]

theorem push_more {p : Partial} {b : UInt8} (hn : p.needed ≠ 1) (hlow : p.lower ≤ b.toNat) (hup : b.toNat ≤ p.upper) :
    push (some p) b = ([], some ⟨p.needed - 1, 0x80, 0xbf, p.value * 64 + (b.toNat - 0x80)⟩) := by
  simp only [push]
  rw [if_pos ⟨hlow, hup⟩, if_neg hn]

theorem toNat_ofNat_lt {n : Nat} (h : n < 256) : (UInt8.ofNat n).toNat = n := by
  rw [UInt8.toNat_ofNat']
  exact Nat.mod_eq_of_lt h

theorem continuation_ofNat {n : Nat} (h : n < 64) : isContinuation (UInt8.ofNat (n + 0x80)) = true := by
  rw [isContinuation, toNat_ofNat_lt (by omega)]
  simp
  omega

/-- A byte of the form the last ones have, within the bounds. -/
theorem spells_last {p : Partial} {c : Char} {n : Nat} (hn : p.needed = 1) (hlt : n < 64) (hlow : p.lower ≤ n + 0x80)
    (hup : n + 0x80 ≤ p.upper) (hvalue : p.value * 64 + n = c.toNat) : Spells p [UInt8.ofNat (n + 0x80)] c := by
  have hb := toNat_ofNat_lt (n := n + 0x80) (by omega)
  refine ⟨continuation_ofNat hlt, .inl ⟨rfl, ?_⟩⟩
  rw [push_last hn (by rw [hb]; exact hlow) (by rw [hb]; exact hup), hb, Nat.add_sub_cancel, hvalue, Char.ofNat_toNat]

theorem spells_more {p : Partial} {c : Char} {n : Nat} {bs : List UInt8} (hn : p.needed ≠ 1) (hlt : n < 64)
    (hlow : p.lower ≤ n + 0x80) (hup : n + 0x80 ≤ p.upper)
    (h : Spells ⟨p.needed - 1, 0x80, 0xbf, p.value * 64 + n⟩ bs c) : Spells p (UInt8.ofNat (n + 0x80) :: bs) c := by
  have hb := toNat_ofNat_lt (n := n + 0x80) (by omega)
  refine ⟨continuation_ofNat hlt, .inr ⟨_, push_more hn (by rw [hb]; exact hlow) (by rw [hb]; exact hup), ?_⟩⟩
  rw [hb, Nat.add_sub_cancel]
  exact h

section Tails

variable {c : Char}

theorem spells_one (value : Nat) (h : value * 64 + c.toNat % 64 = c.toNat) :
    Spells ⟨1, 0x80, 0xbf, value⟩ [UInt8.ofNat (c.toNat % 64 + 0x80)] c :=
  spells_last rfl (Nat.mod_lt _ (by omega)) (by dsimp only; omega) (by dsimp only; omega) h

theorem spells_two (lower upper value : Nat) (hlow : lower ≤ c.toNat / 64 % 64 + 0x80) (hup : c.toNat / 64 % 64 + 0x80 ≤ upper)
    (h : value * 64 + c.toNat / 64 % 64 = c.toNat / 64) :
    Spells ⟨2, lower, upper, value⟩ [UInt8.ofNat (c.toNat / 64 % 64 + 0x80), UInt8.ofNat (c.toNat % 64 + 0x80)] c :=
  spells_more (Nat.succ_ne_self 1) (Nat.mod_lt _ (by omega)) hlow hup (spells_one _ (by dsimp only; omega))

theorem spells_three (lower upper value : Nat) (hlow : lower ≤ c.toNat / 4096 % 64 + 0x80) (hup : c.toNat / 4096 % 64 + 0x80 ≤ upper)
    (h : value * 64 + c.toNat / 4096 % 64 = c.toNat / 4096) :
    Spells ⟨3, lower, upper, value⟩ [UInt8.ofNat (c.toNat / 4096 % 64 + 0x80), UInt8.ofNat (c.toNat / 64 % 64 + 0x80),
      UInt8.ofNat (c.toNat % 64 + 0x80)] c := by
  refine spells_more (by simp) (Nat.mod_lt _ (by omega)) hlow hup (spells_two _ _ _ ?_ ?_ ?_)
  · omega
  · omega
  · dsimp only
    omega

end Tails

/-- How the bytes of a character are read: one that ends it, or a first byte and what follows. -/
inductive Bytes (c : Char) : List UInt8 → Prop
  | one {b : UInt8} : isContinuation b = false → first b = ([c], none) → Bytes c [b]
  | more {b : UInt8} {bs : List UInt8} {p : Partial} : isContinuation b = false → first b = ([], some p) →
      Spells p bs c → Bytes c (b :: bs)

theorem not_surrogate (c : Char) : c.toNat < 0xd800 ∨ 0xdfff < c.toNat ∧ c.toNat < 0x110000 := by
  have h := c.valid
  rcases h with h | ⟨h, h'⟩
  · exact .inl h
  · exact .inr ⟨h, h'⟩

theorem isContinuation_lead {n : Nat} (hlow : 0xc0 ≤ n) (hup : n < 256) : isContinuation (UInt8.ofNat n) = false := by
  rw [isContinuation, toNat_ofNat_lt hup]
  simp
  omega

theorem bytes_one {c : Char} (h : c.toNat ≤ 0x7f) : Bytes c [UInt8.ofNat c.toNat] := by
  have hb := toNat_ofNat_lt (n := c.toNat) (by omega)
  refine .one ?_ ?_
  · rw [isContinuation, hb]
    simp
    omega
  · rw [first, hb, if_pos (by omega), Char.ofNat_toNat]

theorem bytes_two {c : Char} (hlow : 0x7f < c.toNat) (hup : c.toNat ≤ 0x7ff) :
    Bytes c [UInt8.ofNat (c.toNat / 64 + 0xc0), UInt8.ofNat (c.toNat % 64 + 0x80)] := by
  have hb := toNat_ofNat_lt (n := c.toNat / 64 + 0xc0) (by omega)
  refine .more (isContinuation_lead (by omega) (by omega)) ?_ (spells_one (c.toNat / 64) (by omega))
  rw [first, hb, if_neg (by omega), if_pos (by omega), Nat.add_sub_cancel]

theorem bytes_three {c : Char} (hlow : 0x7ff < c.toNat) (hup : c.toNat ≤ 0xffff) :
    Bytes c [UInt8.ofNat (c.toNat / 4096 + 0xe0), UInt8.ofNat (c.toNat / 64 % 64 + 0x80),
      UInt8.ofNat (c.toNat % 64 + 0x80)] := by
  have hvalid := not_surrogate c
  have hb := toNat_ofNat_lt (n := c.toNat / 4096 + 0xe0) (by omega)
  have hcont := isContinuation_lead (n := c.toNat / 4096 + 0xe0) (by omega) (by omega)
  by_cases he0 : c.toNat / 4096 = 0
  · refine .more hcont ?_ (spells_two 0xa0 0xbf 0 (by omega) (by omega) (by omega))
    rw [first, hb, if_neg (by omega), if_neg (by omega), if_pos (by omega)]
  · by_cases hed : c.toNat / 4096 = 0xd
    · refine .more hcont ?_ (spells_two 0x80 0x9f 0xd (by omega) (by omega) (by omega))
      rw [first, hb, if_neg (by omega), if_neg (by omega), if_neg (by omega), if_pos (by omega)]
    · refine .more hcont ?_
        (spells_two 0x80 0xbf (c.toNat / 4096) (by omega) (by omega) (by omega))
      rw [first, hb, if_neg (by omega), if_neg (by omega), if_neg (by omega), if_neg (by omega), if_pos (by omega),
        Nat.add_sub_cancel]

theorem bytes_four {c : Char} (hlow : 0xffff < c.toNat) :
    Bytes c [UInt8.ofNat (c.toNat / 262144 + 0xf0), UInt8.ofNat (c.toNat / 4096 % 64 + 0x80),
      UInt8.ofNat (c.toNat / 64 % 64 + 0x80), UInt8.ofNat (c.toNat % 64 + 0x80)] := by
  have hvalid := not_surrogate c
  have hb := toNat_ofNat_lt (n := c.toNat / 262144 + 0xf0) (by omega)
  have hcont := isContinuation_lead (n := c.toNat / 262144 + 0xf0) (by omega) (by omega)
  by_cases hf0 : c.toNat / 262144 = 0
  · refine .more hcont ?_ (spells_three 0x90 0xbf 0 (by omega) (by omega) (by omega))
    rw [first, hb, if_neg (by omega), if_neg (by omega), if_neg (by omega), if_neg (by omega), if_neg (by omega),
      if_pos (by omega)]
  · by_cases hf4 : c.toNat / 262144 = 4
    · refine .more hcont ?_ (spells_three 0x80 0x8f 4 (by omega) (by omega) (by omega))
      rw [first, hb, if_neg (by omega), if_neg (by omega), if_neg (by omega), if_neg (by omega), if_neg (by omega),
        if_neg (by omega), if_pos (by omega)]
    · refine .more hcont ?_
        (spells_three 0x80 0xbf (c.toNat / 262144) (by omega) (by omega) (by omega))
      rw [first, hb, if_neg (by omega), if_neg (by omega), if_neg (by omega), if_neg (by omega), if_neg (by omega),
        if_neg (by omega), if_neg (by omega), if_pos (by omega), Nat.add_sub_cancel]

theorem bytes_encodeChar (c : Char) : Bytes c (String.utf8EncodeChar c) := by
  have hv : c.val.toNat = c.toNat := rfl
  have hvalid := not_surrogate c
  unfold String.utf8EncodeChar
  rw [hv]
  dsimp only
  split
  · exact bytes_one ‹_›
  · split
    · rw [Nat.mod_eq_of_lt (a := c.toNat / 64) (by omega)]
      exact bytes_two (by omega) ‹_›
    · split
      · rw [Nat.mod_eq_of_lt (a := c.toNat / 4096) (by omega)]
        exact bytes_three (by omega) ‹_›
      · rw [Nat.mod_eq_of_lt (a := c.toNat / 262144) (by omega)]
        exact bytes_four (by omega)

/-! ## A text in pieces -/

/-- How a text is read: each character whole, or as two or more U+FFFD; and whether one is not
    read whole. -/
inductive Reads : List Char → List Char → Bool → Prop
  | nil : Reads [] [] false
  | whole {s out : List Char} {cut : Bool} (c : Char) : Reads s out cut → Reads (c :: s) (c :: out) cut
  | broken {s out : List Char} {cut : Bool} (c : Char) (n : Nat) : Reads s out cut →
      Reads (c :: s) (List.replicate (n + 2) replacement ++ out) true

/-- Marks in front of a first byte are not read. -/
theorem skip_marks {ts : List (Option UInt8)} {b : UInt8} {bs : List UInt8} (h : bytes ts = b :: bs) :
    ∃ us, bytes us = bs ∧ decodePieces none ts = (push none b).1 ++ decodePieces (push none b).2 us ∧
      (isContinuation b = false → ∀ after, divided after ts = divided false us) ∧
      (isContinuation b = true → divided true ts = true) := by
  induction ts with
  | nil => cases h
  | cons t ts ih =>
    cases t with
    | none =>
      obtain ⟨us, hbytes, hdecode, hfirst, hcont⟩ := ih h
      exact ⟨us, hbytes, hdecode, fun hb _ => hfirst hb true, fun hb => hcont hb⟩
    | some b' =>
      rw [bytes_some] at h
      cases h
      refine ⟨ts, rfl, rfl, fun hb after => ?_, fun hb => ?_⟩
      · rw [divided, hb, Bool.and_false, Bool.false_or]
      · rw [divided, hb, Bool.and_true, Bool.true_or]

/-- A byte that continues nothing is no character. -/
theorem push_stray {b : UInt8} (h : isContinuation b = true) : push none b = ([replacement], none) := by
  simp only [isContinuation, Bool.and_eq_true, decide_eq_true_eq] at h
  simp only [push, first]
  rw [if_neg (by omega), if_neg (by omega), if_neg (by omega), if_neg (by omega), if_neg (by omega), if_neg (by omega),
    if_neg (by omega), if_neg (by omega)]

theorem decodePieces_strays {strays rest : List UInt8} (hs : ∀ b ∈ strays, isContinuation b = true)
    {ts : List (Option UInt8)} (h : bytes ts = strays ++ rest) :
    ∃ us, bytes us = rest ∧ decodePieces none ts = List.replicate strays.length replacement ++ decodePieces none us := by
  induction strays generalizing ts with
  | nil => exact ⟨ts, h, rfl⟩
  | cons b strays ih =>
    obtain ⟨us, hbytes, hdecode, -, -⟩ := skip_marks h
    rw [push_stray (hs b (List.mem_cons_self ..))] at hdecode
    obtain ⟨vs, hrest, hvs⟩ := ih (fun d hd => hs d (List.mem_cons_of_mem _ hd)) hbytes
    refine ⟨vs, hrest, ?_⟩
    rw [hdecode, hvs]
    rfl

theorem Spells.continuation {p : Partial} {bs : List UInt8} {c : Char} (h : Spells p bs c) :
    ∀ b ∈ bs, isContinuation b = true := by
  induction bs generalizing p with
  | nil => nofun
  | cons b bs ih =>
    intro d hd
    obtain ⟨hb, hrest⟩ := h
    rcases List.mem_cons.mp hd with rfl | hd
    · exact hb
    · rcases hrest with ⟨rfl, -⟩ | ⟨q, -, hq⟩
      · cases hd
      · exact ih hq d hd

/-- What follows the first byte of a character is read to its end, or a piece ends in it. -/
theorem decodePieces_spells {p : Partial} {bs rest : List UInt8} {c : Char} (h : Spells p bs c)
    {ts : List (Option UInt8)} (hts : bytes ts = bs ++ rest) :
    ∃ us, bytes us = rest ∧
      (decodePieces (some p) ts = c :: decodePieces none us ∧ divided false ts = divided false us ∨
        ∃ n, decodePieces (some p) ts = List.replicate (n + 2) replacement ++ decodePieces none us ∧
          divided false ts = true) := by
  induction bs generalizing p ts with
  | nil => cases h
  | cons b bs ih =>
    cases ts with
    | nil => cases hts
    | cons t ts =>
      cases t with
      | none =>
        obtain ⟨us, hbytes, hus⟩ := @decodePieces_strays _ _ h.continuation ts hts
        refine ⟨us, hbytes, .inr ⟨bs.length, ?_, ?_⟩⟩
        · rw [decodePieces, hus]
          rfl
        · obtain ⟨_, -, -, -, hdivided⟩ := @skip_marks ts b (bs ++ rest) hts
          exact hdivided (h.continuation b (List.mem_cons_self ..))
      | some b' =>
        obtain ⟨rfl, htail⟩ := List.cons.inj hts
        obtain ⟨hb, hrest⟩ := h
        have hdivided : divided false (some b' :: ts) = divided false ts := by
          rw [divided, Bool.false_and, Bool.false_or]
        rw [decodePieces, hdivided]
        rcases hrest with ⟨rfl, hpush⟩ | ⟨q, hpush, hq⟩
        · refine ⟨ts, htail, .inl ⟨?_, rfl⟩⟩
          rw [hpush]
          rfl
        · rw [hpush]
          exact ih hq htail

/-- Each character of a text is read whole, or as two or more U+FFFD if a piece ends inside it. -/
theorem decodePieces_reads {s : List Char} {ts : List (Option UInt8)} (h : bytes ts = encode s) (after : Bool) :
    Reads s (decodePieces none ts) (divided after ts) := by
  induction s generalizing ts after with
  | nil =>
    have hnil : decodePieces none ts = [] ∧ ∀ after, divided after ts = false := by
      induction ts with
      | nil => exact ⟨rfl, fun _ => rfl⟩
      | cons t ts ih =>
        cases t with
        | none => exact ⟨(ih h).1, fun _ => (ih h).2 true⟩
        | some b => cases h
    rw [hnil.1, hnil.2]
    exact .nil
  | cons c s ih =>
    have hbytes := bytes_encodeChar c
    rw [encode, List.flatMap_cons, ← encode] at h
    generalize hchar : String.utf8EncodeChar c = bs at hbytes h
    cases hbytes with
    | @one b hcont hfirst =>
      obtain ⟨us, hus, hdecode, hdivided, -⟩ := skip_marks h
      rw [hdecode, hdivided hcont, push, hfirst]
      exact .whole c (ih hus false)
    | @more b bs p hcont hfirst hspells =>
      obtain ⟨us, hus, hdecode, hdivided, -⟩ := skip_marks h
      obtain ⟨vs, hvs, hwhole | ⟨n, hbroken, hcut⟩⟩ := decodePieces_spells hspells hus
      · rw [hdecode, hdivided hcont, push, hfirst, List.nil_append, hwhole.1, hwhole.2]
        exact .whole c (ih hvs false)
      · rw [hdecode, hdivided hcont, push, hfirst, List.nil_append, hbroken, hcut]
        exact .broken c n (ih hvs false)

theorem Reads.length_le {s out : List Char} {cut : Bool} (h : Reads s out cut) :
    s.length + cut.toNat ≤ out.length := by
  induction h with
  | nil => exact Nat.le_refl _
  | whole c _ ih =>
    simp only [List.length_cons]
    omega
  | broken c n _ ih =>
    simp only [List.length_cons, List.length_append, List.length_replicate, Bool.toNat_true]
    omega

theorem Reads.eq_of_whole {s out : List Char} (h : Reads s out false) : out = s := by
  generalize hcut : false = cut at h
  induction h with
  | nil => rfl
  | whole c _ ih => rw [ih hcut]
  | broken => cases hcut

theorem Reads.eq_iff {s out : List Char} {cut : Bool} (h : Reads s out cut) : out = s ↔ cut = false := by
  constructor
  · intro heq
    have hlen := h.length_le
    rw [heq] at hlen
    cases cut with
    | false => rfl
    | true =>
      simp only [Bool.toNat_true] at hlen
      omega
  · intro hcut
    subst hcut
    exact h.eq_of_whole

/-- A character that is not U+FFFD is read only where it stands. -/
theorem Reads.countP_le {s out : List Char} {cut : Bool} (h : Reads s out cut) {q : Char → Bool}
    (hq : q replacement = false) : out.countP q ≤ s.countP q := by
  induction h with
  | nil => exact Nat.le_refl _
  | whole c _ ih =>
    rw [List.countP_cons, List.countP_cons]
    omega
  | broken c n _ ih =>
    have hnone : (List.replicate (n + 2) replacement).countP q = 0 := by
      rw [List.countP_replicate, if_neg (by simp [hq])]
    rw [List.countP_append, hnone, List.countP_cons]
    omega

/-- The text is read exactly if no piece ends inside a character. -/
theorem decodePieces_eq_iff {s : List Char} {ts : List (Option UInt8)} (h : bytes ts = encode s) :
    decodePieces none ts = s ↔ divided false ts = false :=
  (decodePieces_reads h false).eq_iff

theorem divided_map_some (bs : List UInt8) : divided false (bs.map some) = false := by
  induction bs with
  | nil => rfl
  | cons b bs ih => rw [List.map_cons, divided, ih, Bool.false_and, Bool.false_or]

theorem decodePieces_map_some (p : Option Partial) (bs : List UInt8) : decodePieces p (bs.map some) = decodeFrom p bs := by
  induction bs generalizing p with
  | nil => rfl
  | cons b bs ih => rw [List.map_cons, decodePieces, ih, decodeFrom]

theorem decode_encode (s : List Char) : decode (encode s) = s := by
  rw [decode, ← decodePieces_map_some]
  exact (decodePieces_eq_iff (bytes_map_some _)).mpr (divided_map_some _)

/-! ## ASCII -/

theorem encodeChar_ascii {c : Char} (h : c.toNat < 0x80) : String.utf8EncodeChar c = [UInt8.ofNat c.toNat] := by
  have hv : c.val.toNat = c.toNat := rfl
  unfold String.utf8EncodeChar
  rw [hv]
  exact if_pos (by omega)

/-- The ASCII characters a text begins with are read whole. -/
theorem decodePieces_ascii {a s : List Char} (ha : ∀ c ∈ a, c.toNat < 0x80) {ts : List (Option UInt8)}
    (h : bytes ts = encode (a ++ s)) :
    ∃ us, bytes us = encode s ∧ decodePieces none ts = a ++ decodePieces none us ∧ divided false ts = divided false us := by
  induction a generalizing ts with
  | nil => exact ⟨ts, h, rfl, rfl⟩
  | cons c a ih =>
    have hc := ha c (List.mem_cons_self ..)
    have hb := toNat_ofNat_lt (n := c.toNat) (by omega)
    rw [List.cons_append, encode, List.flatMap_cons, ← encode, encodeChar_ascii hc, List.singleton_append] at h
    obtain ⟨us, hus, hdecode, hdivided, -⟩ := skip_marks h
    obtain ⟨vs, hvs, hread, hrest⟩ := ih (fun d hd => ha d (List.mem_cons_of_mem _ hd)) hus
    refine ⟨vs, hvs, ?_, ?_⟩
    · rw [hdecode, push, first, hb, if_pos hc, Char.ofNat_toNat, hread]
      rfl
    · rw [hdivided ?_ false, hrest]
      rw [isContinuation, hb]
      simp
      omega

/-! ## The end of a line -/

theorem ofNat_newline {n : Nat} (h : Char.ofNat n = '\n') : n = 10 := by
  have hnat := congrArg Char.toNat h
  by_cases hv : n.isValidChar
  · rw [Char.ofNat, dif_pos hv] at hnat
    exact hnat
  · rw [Char.ofNat, dif_neg hv] at hnat
    cases hnat

/-- No character that has begun becomes one of ASCII. -/
def Begun (p : Partial) : Prop :=
  0x80 ≤ p.lower ∧
    (p.needed = 1 ∧ 0x80 ≤ p.value * 64 + (p.lower - 0x80) ∨ p.needed = 2 ∧ 2 ≤ p.value * 64 + (p.lower - 0x80) ∨
      p.needed = 3 ∧ 1 ≤ p.value * 64 + (p.lower - 0x80))

theorem none_begun : ∀ q ∈ (none : Option Partial), Begun q := by
  intro q hq
  cases hq

theorem first_begun (b : UInt8) : ∀ q ∈ (first b).2, Begun q := by
  intro q hq
  unfold first at hq
  dsimp only at hq
  repeat' split at hq
  all_goals first
    | cases hq; done
    | cases hq; simp [Begun]; done
    | cases hq; simp [Begun]; omega

theorem first_newline {b : UInt8} (h : '\n' ∈ (first b).1) : b = 10 := by
  by_cases hascii : b.toNat < 0x80
  · rw [first, if_pos hascii, List.mem_singleton] at h
    exact UInt8.toNat_inj.mp (ofNat_newline h.symm)
  · unfold first at h
    dsimp only at h
    rw [if_neg hascii] at h
    repeat' split at h
    all_goals cases h
    rename_i h
    cases h

theorem first_ten : first 10 = (['\n'], none) := rfl

theorem push_more_begun {p : Partial} {b : UInt8} (hp : Begun p) (hlow : p.lower ≤ b.toNat) (hn : p.needed ≠ 1) :
    Begun ⟨p.needed - 1, 0x80, 0xbf, p.value * 64 + (b.toNat - 0x80)⟩ := by
  obtain ⟨hlower, hneeded⟩ := hp
  refine ⟨Nat.le_refl _, ?_⟩
  dsimp only
  omega

theorem push_begun {p : Option Partial} (hp : ∀ q ∈ p, Begun q) (b : UInt8) : ∀ q ∈ (push p b).2, Begun q := by
  cases p with
  | none => exact first_begun b
  | some p =>
    simp only [push]
    split
    · rename_i hbounds
      split
      · nofun
      · rename_i hn
        intro q hq
        cases hq
        exact push_more_begun (hp p rfl) hbounds.1 hn
    · exact first_begun b

/-- A line ends with its byte only. -/
theorem push_newline {p : Option Partial} (hp : ∀ q ∈ p, Begun q) {b : UInt8} (h : '\n' ∈ (push p b).1) : b = 10 := by
  cases p with
  | none => exact first_newline h
  | some p =>
    obtain ⟨hlower, hneeded⟩ := hp p rfl
    simp only [push] at h
    split at h
    · split at h
      · have hvalue := ofNat_newline (List.mem_singleton.mp h).symm
        omega
      · cases h
    · rcases List.mem_cons.mp h with h | h
      · cases h
      · exact first_newline h

theorem push_ten {p : Option Partial} (hp : ∀ q ∈ p, Begun q) : push p 10 = (flush p ++ ['\n'], none) := by
  cases p with
  | none => rfl
  | some p =>
    obtain ⟨hlower, -⟩ := hp p rfl
    have hten : (10 : UInt8).toNat = 10 := rfl
    simp only [push, hten, first_ten]
    rw [if_neg (by omega)]
    rfl

theorem decodePieces_ten {p : Option Partial} (hp : ∀ q ∈ p, Begun q) (ts us : List (Option UInt8)) :
    decodePieces p (ts ++ some 10 :: us) = decodePieces p ts ++ '\n' :: decodePieces none us := by
  induction ts generalizing p with
  | nil =>
    show (push p 10).1 ++ decodePieces (push p 10).2 us = flush p ++ '\n' :: decodePieces none us
    rw [push_ten hp, List.append_assoc]
    rfl
  | cons t ts ih =>
    cases t with
    | none => rw [List.cons_append, decodePieces, ih none_begun, decodePieces, List.append_assoc]
    | some b => rw [List.cons_append, decodePieces, ih (push_begun hp b), decodePieces, List.append_assoc]

theorem ten_of_newline {p : Option Partial} (hp : ∀ q ∈ p, Begun q) {ts : List (Option UInt8)}
    (h : '\n' ∈ decodePieces p ts) : some 10 ∈ ts := by
  have hflush : ∀ p : Option Partial, '\n' ∉ flush p := by
    intro p h
    cases p with
    | none => cases h
    | some p => cases List.mem_singleton.mp h
  induction ts generalizing p with
  | nil => exact absurd h (hflush p)
  | cons t ts ih =>
    cases t with
    | none =>
      rw [decodePieces] at h
      rcases List.mem_append.mp h with h | h
      · exact absurd h (hflush p)
      · exact List.mem_cons_of_mem _ (ih none_begun h)
    | some b =>
      rw [decodePieces] at h
      rcases List.mem_append.mp h with h | h
      · rw [push_newline hp h]
        exact List.mem_cons_self ..
      · exact List.mem_cons_of_mem _ (ih (push_begun hp b) h)

theorem newline_of_ten {s : List Char} (h : 10 ∈ encode s) : '\n' ∈ s := by
  rw [encode, List.mem_flatMap] at h
  obtain ⟨c, hc, hten⟩ := h
  have hbytes := bytes_encodeChar c
  generalize String.utf8EncodeChar c = bs at hten hbytes
  cases hbytes with
  | one hcont hfirst =>
    rw [← List.mem_singleton.mp hten, first_ten] at hfirst
    cases hfirst
    exact hc
  | more hcont hfirst hspells =>
    rcases List.mem_cons.mp hten with rfl | hten
    · cases hfirst
    · cases hspells.continuation 10 hten

theorem encode_append (s t : List Char) : encode (s ++ t) = encode s ++ encode t := List.flatMap_append

open Lines

theorem split_decodePieces (ts : List (Option UInt8)) :
    split '\n' (decodePieces none ts) =
      ((split (some 10) ts).1.map (decodePieces none), decodePieces none (split (some 10) ts).2) :=
  split_hom (fun a b _ => decodePieces_ten none_begun a b) (fun _ ha h => ha (ten_of_newline none_begun h)) ts

theorem split_bytes (ts : List (Option UInt8)) :
    split 10 (bytes ts) = ((split (some 10) ts).1.map bytes, bytes (split (some 10) ts).2) := by
  refine split_hom (fun a b _ => ?_) (fun a ha h => ha ?_) ts
  · rw [bytes_append, bytes_some]
  · rw [bytes, List.mem_filterMap] at h
    obtain ⟨t, ht, rfl⟩ := h
    exact ht

theorem split_encode (s : List Char) : split 10 (encode s) = ((split '\n' s).1.map encode, encode (split '\n' s).2) :=
  split_hom (fun a b _ => encode_append a ('\n' :: b)) (fun _ ha h => ha (newline_of_ten h)) s

/-! ## Pieces of any bytes -/

/-- The byte goes on with the character that has begun. -/
def continues : Option Partial → UInt8 → Bool
  | none, _ => false
  | some p, b => decide (p.lower ≤ b.toNat ∧ b.toNat ≤ p.upper)

/-- A mark stands inside a character, of the bytes read as one; `after`: one stands here. -/
def cuts : Option Partial → Bool → List (Option UInt8) → Bool
  | _, _, [] => false
  | q, _, none :: ts => cuts q true ts
  | q, after, some b :: ts => (after && continues q b) || cuts (push q b).2 false ts

/-- What the pieces are read as from here on, the character that has begun given up at a mark. -/
def decodeMarked (q : Option Partial) (after : Bool) (ts : List (Option UInt8)) : List Char :=
  if after then flush q ++ decodePieces none ts else decodePieces q ts

/-- Its bytes are within those of a continuation. -/
def Inside (p : Partial) : Prop := 0x80 ≤ p.lower ∧ p.upper ≤ 0xbf

theorem first_inside (b : UInt8) : ∀ q ∈ (first b).2, Inside q := by
  intro q hq
  unfold first at hq
  dsimp only at hq
  repeat' split at hq
  all_goals first
    | cases hq; done
    | cases hq; simp [Inside]

theorem push_inside (p : Option Partial) (b : UInt8) : ∀ q ∈ (push p b).2, Inside q := by
  cases p with
  | none => exact first_inside b
  | some p =>
    simp only [push]
    split
    · split
      · nofun
      · intro q hq
        cases hq
        simp [Inside]
    · exact first_inside b

theorem continues_continuation {p : Partial} (hp : Inside p) {b : UInt8} (h : continues (some p) b = true) :
    isContinuation b = true := by
  obtain ⟨hlow, hup⟩ := of_decide_eq_true h
  obtain ⟨hlower, hupper⟩ := hp
  simp only [isContinuation, Bool.and_eq_true, decide_eq_true_eq]
  omega

theorem push_stops {q : Option Partial} {b : UInt8} (h : continues q b = false) :
    push q b = (flush q ++ (push none b).1, (push none b).2) := by
  cases q with
  | none => rfl
  | some p =>
    simp only [push]
    rw [if_neg (of_decide_eq_false h)]
    rfl

theorem decode_uncut {q : Option Partial} {after : Bool} {ts : List (Option UInt8)} (h : cuts q after ts = false) :
    decodeMarked q after ts = decodeFrom q (bytes ts) := by
  induction ts generalizing q after with
  | nil =>
    cases after with
    | false => rfl
    | true => exact List.append_nil _
  | cons t ts ih =>
    cases t with
    | none =>
      have hcut : cuts q true ts = false := h
      have hrest := ih hcut
      rw [bytes_none, ← hrest]
      cases after with
      | false => rfl
      | true => rfl
    | some b =>
      simp only [cuts, Bool.or_eq_false_iff] at h
      have hrest := ih h.2
      have hstep : decodeFrom q (bytes (some b :: ts)) = (push q b).1 ++ decodePieces (push q b).2 ts := by
        rw [bytes_some, decodeFrom, ← hrest]
        rfl
      rw [hstep]
      cases after with
      | false => rfl
      | true =>
        rw [push_stops (by simpa using h.1), List.append_assoc]
        rfl

def pending : Option Partial → Nat
  | none => 0
  | some _ => 1

theorem count_flush (q : Option Partial) : (flush q).count replacement = pending q := by
  cases q with
  | none => rfl
  | some p => rfl

theorem count_one (c : Char) : [c].count replacement ≤ 1 := by
  rw [List.count_singleton]
  split
  · exact Nat.le_refl _
  · exact Nat.zero_le _

/-- What the whole reads beyond a byte that goes on. -/
theorem count_continued {p : Partial} (hp : Inside p) {b : UInt8} (hc : continues (some p) b = true) {ts : List (Option UInt8)}
    (hnone : (decodeFrom none (bytes ts)).count replacement ≤ (decodePieces none ts).count replacement)
    (hmore : ∀ p', Inside p' →
      (decodeFrom (some p') (bytes ts)).count replacement ≤ 1 + (decodePieces none ts).count replacement) :
    (decodeFrom (some p) (bytes (some b :: ts))).count replacement < 1 + (decodePieces none (some b :: ts)).count replacement := by
  have hpieces : decodePieces none (some b :: ts) = replacement :: decodePieces none ts := by
    rw [decodePieces, push_stray (continues_continuation hp hc)]
    rfl
  rw [hpieces, List.count_cons_self, bytes_some, decodeFrom]
  simp only [push]
  rw [if_pos (of_decide_eq_true hc)]
  split
  · have hone := count_one (Char.ofNat (p.value * 64 + (b.toNat - 0x80)))
    rw [List.count_append]
    dsimp only
    omega
  · have hrest := hmore ⟨p.needed - 1, 0x80, 0xbf, p.value * 64 + (b.toNat - 0x80)⟩ ⟨Nat.le_refl _, Nat.le_refl _⟩
    rw [List.nil_append]
    dsimp only
    omega

/-- Marks make replacements, and take none away. -/
theorem counts (ts : List (Option UInt8)) {q : Option Partial} (hq : ∀ p ∈ q, Inside p) :
    (decodeFrom q (bytes ts)).count replacement ≤ (decodePieces q ts).count replacement ∧
      (decodeFrom q (bytes ts)).count replacement ≤ pending q + (decodePieces none ts).count replacement := by
  induction ts generalizing q with
  | nil =>
    refine ⟨Nat.le_refl _, ?_⟩
    show (flush q).count replacement ≤ _
    rw [count_flush]
    exact Nat.le_add_right _ _
  | cons t ts ih =>
    cases t with
    | none =>
      obtain ⟨-, hgiven⟩ := ih hq
      refine ⟨?_, hgiven⟩
      rw [bytes_none, decodePieces, List.count_append, count_flush]
      exact hgiven
    | some b =>
      refine ⟨?_, ?_⟩
      · have hrest := (ih (push_inside q b)).1
        rw [bytes_some, decodeFrom, List.count_append, decodePieces, List.count_append]
        omega
      · cases hc : continues q b with
        | false =>
          have hrest := (ih (push_inside none b)).1
          rw [bytes_some, decodeFrom, push_stops hc, List.count_append, List.count_append, count_flush, decodePieces,
            List.count_append]
          dsimp only
          omega
        | true =>
          cases q with
          | none => cases hc
          | some p =>
            have hlt := count_continued (hq p rfl) hc (ih (q := none) nofun).1 fun p' hp' =>
              (ih (q := some p') fun r hr => by cases hr; exact hp').2
            exact Nat.le_of_lt hlt

/-- A mark inside a character makes more replacements than the bytes have as one. -/
theorem count_cut {q : Option Partial} (hq : ∀ p ∈ q, Inside p) {after : Bool} {ts : List (Option UInt8)}
    (h : cuts q after ts = true) :
    (decodeFrom q (bytes ts)).count replacement < (decodeMarked q after ts).count replacement := by
  induction ts generalizing q after with
  | nil => cases h
  | cons t ts ih =>
    cases t with
    | none =>
      have hcut : cuts q true ts = true := h
      have hrest := ih hq hcut
      rw [bytes_none]
      cases after with
      | false => exact hrest
      | true => exact hrest
    | some b =>
      simp only [cuts, Bool.or_eq_true, Bool.and_eq_true] at h
      by_cases hhere : after = true ∧ continues q b = true
      · obtain ⟨rfl, hc⟩ := hhere
        cases q with
        | none => cases hc
        | some p =>
          have hlt := count_continued (hq p rfl) hc (counts ts (q := none) nofun).1 fun p' hp' =>
            (counts ts (q := some p') fun r hr => by cases hr; exact hp').2
          show _ < (flush (some p) ++ decodePieces none (some b :: ts)).count replacement
          rw [List.count_append, count_flush]
          exact hlt
      · have hlater : cuts (push q b).2 false ts = true := h.resolve_left hhere
        have hrest : (decodeFrom (push q b).2 (bytes ts)).count replacement <
            (decodePieces (push q b).2 ts).count replacement := ih (push_inside q b) hlater
        rw [bytes_some, decodeFrom, List.count_append]
        cases after with
        | false =>
          show _ < (decodePieces q (some b :: ts)).count replacement
          rw [decodePieces, List.count_append]
          omega
        | true =>
          have hc : continues q b = false := by simpa using hhere
          rw [push_stops hc] at hrest ⊢
          show _ < (flush q ++ decodePieces none (some b :: ts)).count replacement
          rw [decodePieces, List.count_append, List.count_append, List.count_append]
          dsimp only at hrest ⊢
          omega

/-- Pieces are read as the whole exactly if none ends inside a character, else with more
    replacements. -/
theorem pieces_cases (pieces : List (List UInt8)) :
    cuts none false (marked pieces) = false ∧ pieces.flatMap decode = decode pieces.flatten ∨
      cuts none false (marked pieces) = true ∧
        (decode pieces.flatten).count replacement < (pieces.flatMap decode).count replacement := by
  rw [← decodePieces_marked, ← bytes_marked]
  cases h : cuts none false (marked pieces) with
  | false => exact .inl ⟨rfl, decode_uncut h⟩
  | true => exact .inr ⟨rfl, count_cut (q := none) nofun h⟩

end Errand.Lib.Utf8
