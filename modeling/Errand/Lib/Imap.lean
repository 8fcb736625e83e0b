import Errand.Lib.Dict
import Errand.Lib.PyStr
import Mathlib.Data.List.Nodup

/-
  Errand.Lib.Imap — mailboxes of an IMAP server and the commands that move messages: SELECT,
  CREATE, COPY, STORE of `\Deleted` and EXPUNGE, and LIST.

  A mailbox has its messages in order, each with a UID that no other had; a copy is the same
  email under a UID of the mailbox it is in. A command's arguments are read as the protocol has
  them: a mailbox is an atom or a quoted string, and INBOX in any case; a set of messages is of
  places, from 1 on, of ranges of them, and of `*`, the last. What cannot be read, or names what
  is not there, is refused and changes nothing.

  Rules:
  - `mark_append`: what STORE marks of a mailbox in two parts.
  - `filter_uids_iff`: two parts of a mailbox are the same messages exactly if they are the same
    part.
  - `append_uids`: the messages that are copied get UIDs the mailbox did not have.
  - `inside_mono`: a set that can be read is one of a longer mailbox.
-/

namespace Errand.Lib.Imap

open PyStr

abbrev Text := List Char

/-! ## Mailboxes -/

structure Message where
  uid : Nat
  email : Nat
  deleted : Bool
  deriving DecidableEq, Repr

/-- A mailbox with the attributes LIST has of it. -/
structure Mailbox where
  attributes : List Text
  messages : List Message
  next : Nat
  below : ∀ m ∈ messages, m.uid < next
  distinct : (messages.map Message.uid).Nodup
  atoms : ∀ a ∈ attributes, a ≠ [] ∧ ∀ c ∈ a, isSpace c = false ∧ c ≠ ')'

def Mailbox.uids (b : Mailbox) : List Nat := b.messages.map Message.uid

theorem atoms_nil : ∀ a ∈ ([] : List Text), a ≠ [] ∧ ∀ c ∈ a, isSpace c = false ∧ c ≠ ')' := nofun

def emptyMailbox : Mailbox := ⟨[], [], 1, nofun, List.nodup_nil, atoms_nil⟩

/-- The messages under new UIDs. -/
def renumber : Nat → List Message → List Message
  | _, [] => []
  | n, m :: ms => { m with uid := n } :: renumber (n + 1) ms

/-- Those in the places, marked. -/
def mark (p : Nat → Bool) : Nat → List Message → List Message
  | _, [] => []
  | n, m :: ms => (if p n then { m with deleted := true } else m) :: mark p (n + 1) ms

/-- Those in the places. -/
def picked (p : Nat → Bool) : Nat → List Message → List Message
  | _, [] => []
  | n, m :: ms => if p n then m :: picked p (n + 1) ms else picked p (n + 1) ms

theorem mem_renumber {n : Nat} {ms : List Message} {x : Message} (h : x ∈ renumber n ms) :
    n ≤ x.uid ∧ x.uid < n + ms.length := by
  induction ms generalizing n with
  | nil => cases h
  | cons m ms ih =>
    rcases List.mem_cons.mp h with rfl | h
    · exact ⟨Nat.le_refl n, Nat.lt_add_of_pos_right (Nat.succ_pos _)⟩
    · have hx := ih h
      rw [List.length_cons]
      omega

theorem nodup_renumber (n : Nat) (ms : List Message) : ((renumber n ms).map Message.uid).Nodup := by
  induction ms generalizing n with
  | nil => exact List.nodup_nil
  | cons m ms ih =>
    refine List.nodup_cons.mpr ⟨?_, ih (n + 1)⟩
    intro h
    obtain ⟨x, hx, huid⟩ := List.mem_map.mp h
    have hlt := (mem_renumber hx).1
    rw [huid] at hlt
    exact absurd hlt (Nat.not_succ_le_self n)

@[simp] theorem uids_mark (p : Nat → Bool) (n : Nat) (ms : List Message) :
    (mark p n ms).map Message.uid = ms.map Message.uid := by
  induction ms generalizing n with
  | nil => rfl
  | cons m ms ih =>
    rw [mark, List.map_cons, List.map_cons, ih]
    congr 1
    split
    all_goals rfl

/-- COPY's effect on the mailbox it copies to. -/
def Mailbox.append (b : Mailbox) (ms : List Message) : Mailbox where
  attributes := b.attributes
  messages := b.messages ++ renumber b.next ms
  next := b.next + ms.length
  below := by
    intro m hm
    rcases List.mem_append.mp hm with hm | hm
    · exact Nat.lt_add_right _ (b.below m hm)
    · exact (mem_renumber hm).2
  distinct := by
    rw [List.map_append, List.nodup_append]
    refine ⟨b.distinct, nodup_renumber _ _, ?_⟩
    intro uid hold other hnew heq
    obtain ⟨x, hx, rfl⟩ := List.mem_map.mp hold
    obtain ⟨y, hy, rfl⟩ := List.mem_map.mp hnew
    have hlow := b.below x hx
    have hhigh := (mem_renumber hy).1
    omega
  atoms := b.atoms

/-- STORE's effect. -/
def Mailbox.store (b : Mailbox) (p : Nat → Bool) : Mailbox where
  attributes := b.attributes
  messages := mark p 1 b.messages
  next := b.next
  below := by
    intro m hm
    have huid : m.uid ∈ b.messages.map Message.uid := uids_mark p 1 b.messages ▸ List.mem_map_of_mem hm
    obtain ⟨x, hx, hxm⟩ := List.mem_map.mp huid
    exact hxm ▸ b.below x hx
  distinct := by
    rw [uids_mark]
    exact b.distinct
  atoms := b.atoms

/-- EXPUNGE's effect. -/
def Mailbox.expunge (b : Mailbox) : Mailbox where
  attributes := b.attributes
  messages := b.messages.filter fun m => !m.deleted
  next := b.next
  below := fun m hm => b.below m (List.mem_of_mem_filter hm)
  distinct := b.distinct.sublist (List.filter_sublist.map _)
  atoms := b.atoms

@[simp] theorem messages_append (b : Mailbox) (ms : List Message) :
    (b.append ms).messages = b.messages ++ renumber b.next ms := rfl

@[simp] theorem messages_store (b : Mailbox) (p : Nat → Bool) : (b.store p).messages = mark p 1 b.messages := rfl

@[simp] theorem messages_expunge (b : Mailbox) : b.expunge.messages = b.messages.filter fun m => !m.deleted := rfl

/-! ## How arguments are read -/

/-- ASTRING-CHAR. -/
def atomChar (c : Char) : Bool := 0x20 < c.toNat && c.toNat < 0x7f && !("()\x7b%*\"\\".toList.contains c)

/-- What is behind an opening quote, up to the closing one, which is the end. -/
def quoted : Text → Option Text
  | [] => none
  | ['"'] => some []
  | ['\\'] => none
  | '\\' :: c :: s => if c = '"' ∨ c = '\\' then (quoted s).map (c :: ·) else none
  | c :: s => if c = '"' ∨ 0x7f ≤ c.toNat ∨ c = '\r' ∨ c = '\n' then none else (quoted s).map (c :: ·)

def astring (s : Text) : Option Text :=
  match s with
  | '"' :: s => quoted s
  | s => if s ≠ [] ∧ s.all atomChar then some s else none

/-- INBOX has its name in any case. -/
def canonical (name : Text) : Text := if lower name = "inbox".toList then "INBOX".toList else name

def mailboxName (s : Text) : Option Text := (astring s).map canonical

inductive Number where
  | place (n : Nat)
  | last

/-- In a mailbox with so many messages. -/
def Number.value (size : Nat) : Number → Nat
  | .place n => n
  | .last => size

def number? (s : Text) : Option Number :=
  if s = ['*'] then some .last
  else if s ≠ [] ∧ s.all Char.isDigit ∧ s.head? ≠ some '0' then some (.place (digitsValue s))
  else none

def range? (s : Text) : Option (Number × Number) :=
  match s.splitOn ':' with
  | [a] => (number? a).map fun n => (n, n)
  | [a, b] => (number? a).bind fun m => (number? b).map fun n => (m, n)
  | _ => none

def sequenceSet (s : Text) : Option (List (Number × Number)) := (s.splitOn ',').mapM range?

/-- The place is in the set. -/
def covers (size : Nat) (set : List (Number × Number)) (i : Nat) : Bool :=
  set.any fun r => decide (min (r.1.value size) (r.2.value size) ≤ i) && decide (i ≤ max (r.1.value size) (r.2.value size))

/-- Every place of the set is one of the mailbox. -/
def inside (size : Nat) (set : List (Number × Number)) : Bool :=
  set.all fun r => decide (1 ≤ min (r.1.value size) (r.2.value size)) && decide (max (r.1.value size) (r.2.value size) ≤ size)

/-- A pattern of LIST: `*` is any text, and `%` any without the hierarchy's delimiter. -/
def listed (delimiter : Char) : Text → Text → Bool
  | [], name => name.isEmpty
  | '*' :: pattern, name => name.tails.any (listed delimiter pattern)
  | '%' :: pattern, name =>
    (List.range ((name.takeWhile (· ≠ delimiter)).length + 1)).any fun n => listed delimiter pattern (name.drop n)
  | c :: pattern, d :: name => c == d && listed delimiter pattern name
  | _ :: _, [] => false

/-! ## Commands -/

inductive Command where
  | list (pattern : Text)
  | select (mailbox : Text)
  | create (mailbox : Text)
  | copy (set mailbox : Text)
  /-- +FLAGS \Deleted. -/
  | store (set : Text)
  | expunge

/-- The mailboxes by name, and the one that is selected. -/
structure Session where
  mailboxes : List (Text × Mailbox)
  selected : Option Text

def Session.mailbox (s : Session) (name : Text) : Option Mailbox := Dict.get? s.mailboxes name

def Session.put (s : Session) (name : Text) (b : Mailbox) : Session := { s with mailboxes := Dict.set s.mailboxes name b }

/-- The name a new mailbox gets: a delimiter at the end is no part of it. -/
def createdName (delimiter : Char) (name : Text) : Text :=
  canonical (if name.getLast? = some delimiter then name.dropLast else name)

/-- What LIST has of a pattern in quotes; none if it is refused. -/
def list? (delimiter : Char) (s : Session) (pattern : Text) : Option (List (Text × Mailbox)) :=
  (quoted (pattern ++ ['"'])).map fun pattern =>
    s.mailboxes.filter fun item =>
      listed delimiter pattern item.1 || (item.1 == "INBOX".toList && lower pattern == "inbox".toList)

/-- A command that is carried out; none if it is refused. -/
def perform (delimiter : Char) (s : Session) : Command → Option Session
  | .list pattern => (list? delimiter s pattern).map fun _ => s
  | .select mailbox => do
    let name ← mailboxName mailbox
    let _ ← s.mailbox name
    some { s with selected := some name }
  | .create mailbox => do
    let name := createdName delimiter (← astring mailbox)
    if name = [] ∨ (s.mailbox name).isSome then none else some (s.put name emptyMailbox)
  | .copy set mailbox => do
    let source ← s.selected
    let messages := (← s.mailbox source).messages
    let name ← mailboxName mailbox
    let target ← s.mailbox name
    let set ← sequenceSet set
    if inside messages.length set then
      some (s.put name (target.append (picked (covers messages.length set) 1 messages)))
    else none
  | .store set => do
    let source ← s.selected
    let b ← s.mailbox source
    let set ← sequenceSet set
    if inside b.messages.length set then some (s.put source (b.store (covers b.messages.length set))) else none
  | .expunge => do
    let source ← s.selected
    let b ← s.mailbox source
    some (s.put source b.expunge)

def quote (name : Text) : Text := '"' :: name.flatMap (fun c => if c = '"' ∨ c = '\\' then ['\\', c] else [c]) ++ ['"']

/-- A line of LIST. -/
def listLine (delimiter : Char) (item : Text × Mailbox) : Text :=
  '(' :: [' '].intercalate item.2.attributes ++ ')' :: ' ' :: quote [delimiter] ++ ' ' :: quote item.1

/-! ## Rules -/

/-- Two parts of a mailbox have the same UIDs exactly if they are one part. -/
theorem filter_uids_iff {ms : List Message} (h : (ms.map Message.uid).Nodup) (p q : Message → Bool) :
    (ms.filter p).map Message.uid = (ms.filter q).map Message.uid ↔ ∀ m ∈ ms, p m = q m := by
  have hmem : ∀ r : Message → Bool, ∀ m ∈ ms, m.uid ∈ (ms.filter r).map Message.uid ↔ r m = true := by
    intro r m hm
    constructor
    · intro huid
      obtain ⟨x, hx, hxm⟩ := List.mem_map.mp huid
      obtain ⟨hxms, hr⟩ := List.mem_filter.mp hx
      rwa [List.inj_on_of_nodup_map h hxms hm hxm] at hr
    · exact fun hr => List.mem_map_of_mem (List.mem_filter.mpr ⟨hm, hr⟩)
  constructor
  · intro heq m hm
    rw [Bool.eq_iff_iff, ← hmem p m hm, ← hmem q m hm, heq]
  · intro hall
    rw [List.filter_congr hall]

theorem picked_subset {p : Nat → Bool} {n : Nat} {ms : List Message} {x : Message} (h : x ∈ picked p n ms) : x ∈ ms := by
  induction ms generalizing n with
  | nil => exact h
  | cons m ms ih =>
    rw [picked] at h
    split at h
    · rcases List.mem_cons.mp h with rfl | h
      · exact List.mem_cons_self
      · exact List.mem_cons_of_mem _ (ih h)
    · exact List.mem_cons_of_mem _ (ih h)

theorem mark_append (p : Nat → Bool) (n : Nat) (xs ys : List Message) :
    mark p n (xs ++ ys) = mark p n xs ++ mark p (n + xs.length) ys := by
  induction xs generalizing n with
  | nil => rfl
  | cons x xs ih =>
    rw [List.cons_append, mark, ih, mark, List.cons_append, List.length_cons, Nat.add_right_comm, Nat.add_assoc]

theorem length_renumber (n : Nat) (ms : List Message) : (renumber n ms).length = ms.length := by
  induction ms generalizing n with
  | nil => rfl
  | cons m ms ih => rw [renumber, List.length_cons, List.length_cons, ih]

theorem append_new (b : Mailbox) (ms : List Message) {x : Message} (h : x ∈ renumber b.next ms) : x.uid ∉ b.uids := by
  intro huid
  obtain ⟨y, hy, hyx⟩ := List.mem_map.mp huid
  have hlow := b.below y hy
  have hhigh := (mem_renumber h).1
  rw [hyx] at hlow
  omega

/-- A copy is the same email. -/
theorem renumber_email {ms : List Message} {m : Message} (h : m ∈ ms) (n : Nat) :
    ∃ y ∈ renumber n ms, y.email = m.email := by
  induction ms generalizing n with
  | nil => cases h
  | cons x ms ih =>
    rcases List.mem_cons.mp h with rfl | h
    · exact ⟨_, List.mem_cons_self, rfl⟩
    · obtain ⟨y, hy, hemail⟩ := ih h (n + 1)
      exact ⟨y, List.mem_cons_of_mem _ hy, hemail⟩

theorem value_mono {size size' : Nat} (h : size ≤ size') (n : Number) :
    n.value size ≤ n.value size' ∧ (n.value size ≤ size → n.value size' ≤ size') := by
  cases n with
  | place n => exact ⟨Nat.le_refl n, fun hn => hn.trans h⟩
  | last => exact ⟨h, fun _ => Nat.le_refl size'⟩

/-- A set of a mailbox is one of a longer mailbox. -/
theorem inside_mono {size size' : Nat} {set : List (Number × Number)} (h : size ≤ size') (hin : inside size set = true) :
    inside size' set = true := by
  rw [inside, List.all_eq_true] at hin ⊢
  intro r hr
  have hrange := hin r hr
  rw [Bool.and_eq_true, decide_eq_true_eq, decide_eq_true_eq] at hrange ⊢
  obtain ⟨hlow, hlow'⟩ := value_mono h r.1
  obtain ⟨hhigh, hhigh'⟩ := value_mono h r.2
  omega

theorem atom_plain {c : Char} (h : atomChar c = true) :
    c ≠ '"' ∧ c ≠ '\\' ∧ ¬ 0x7f ≤ c.toNat ∧ ¬ (c = '\r' ∨ c = '\n') ∧ c ≠ '*' ∧ c ≠ '%' := by
  rw [atomChar, Bool.and_eq_true, Bool.and_eq_true, decide_eq_true_eq, decide_eq_true_eq, Bool.not_eq_true'] at h
  obtain ⟨⟨hlow, hhigh⟩, hspecial⟩ := h
  refine ⟨?_, ?_, by omega, ?_, ?_, ?_⟩
  · rintro rfl
    exact absurd hspecial (by decide)
  · rintro rfl
    exact absurd hspecial (by decide)
  · rintro (rfl | rfl)
    · exact absurd hlow (by decide)
    · exact absurd hlow (by decide)
  · rintro rfl
    exact absurd hspecial (by decide)
  · rintro rfl
    exact absurd hspecial (by decide)

/-- An atom in quotes is read as it is. -/
theorem quoted_atom {s : Text} (h : s.all atomChar = true) : quoted (s ++ ['"']) = some s := by
  induction s with
  | nil => rfl
  | cons c s ih =>
    rw [List.all_cons, Bool.and_eq_true] at h
    obtain ⟨hquote, hslash, hascii, hbreak, -, -⟩ := atom_plain h.1
    rw [List.cons_append]
    unfold quoted
    split
    · rename_i heq
      exact absurd heq (List.cons_ne_nil _ _)
    · rename_i heq
      exact absurd (List.cons.inj heq).1 hquote
    · rename_i heq
      exact absurd (List.cons.inj heq).1 hslash
    · rename_i heq
      exact absurd (List.cons.inj heq).1 hslash
    · rename_i heq
      obtain ⟨rfl, rfl⟩ := List.cons.inj heq
      rw [if_neg (by rintro (h | h | h); exacts [hquote h, hascii h, hbreak h]), ih h.2]
      rfl

/-- An atom has no wildcards. -/
theorem listed_atom {delimiter : Char} {s : Text} (h : s.all atomChar = true) (name : Text) :
    listed delimiter s name = true ↔ s = name := by
  induction s generalizing name with
  | nil =>
    rw [listed, List.isEmpty_iff]
    exact eq_comm
  | cons c s ih =>
    rw [List.all_cons, Bool.and_eq_true] at h
    obtain ⟨-, -, -, -, hstar, hpercent⟩ := atom_plain h.1
    unfold listed
    split
    · rename_i heq
      exact absurd heq (List.cons_ne_nil _ _)
    · rename_i heq
      exact absurd (List.cons.inj heq).1 hstar
    · rename_i heq
      exact absurd (List.cons.inj heq).1 hpercent
    · rename_i heq
      obtain ⟨rfl, rfl⟩ := List.cons.inj heq
      rw [Bool.and_eq_true, beq_iff_eq, ih h.2, List.cons.injEq]
    · exact iff_of_false Bool.false_ne_true nofun

end Errand.Lib.Imap
