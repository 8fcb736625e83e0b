import Mathlib.Data.List.Nodup

/-
  Errand.Lib.Rotation — tokens that are exchanged for their successors.

  A token is known by its place in the order of issue. The issuer exchanges a token once,
  for the next; what its clients send it, spent or not, is on its list. A client's record
  is the list of the tokens it has kept, the last one first.

  Rules: no number that has been issued comes again (`Known`, kept by every operation), a
  token kept before its turn stays older than the one to come (`newer_issue`), and a record
  to which only newer tokens are added is in order (`record_pairwise`).
-/

namespace Errand.Lib.Rotation

structure Issuer where
  issued : Nat
  sent : List Nat
  spent : List Nat
  deriving DecidableEq, Repr

namespace Issuer

def start : Issuer := ⟨0, [], []⟩

/-- The token that is issued next. -/
def next (o : Issuer) : Nat := o.issued + 1

def issue (o : Issuer) : Issuer := { o with issued := o.next }

def send (o : Issuer) (token : Nat) : Issuer := { o with sent := token :: o.sent }

def spend (o : Issuer) (token : Nat) : Issuer := { o with spent := token :: o.spent }

def exchange (o : Issuer) (token : Nat) : Issuer := (o.spend token).issue

/-- Tokens that the issuer has issued. -/
def Known (o : Issuer) (tokens : List Nat) : Prop := ∀ t ∈ tokens, t ≤ o.issued

theorem Known.mono {o o' : Issuer} {tokens : List Nat} (h : o.Known tokens) (hle : o.issued ≤ o'.issued) :
    o'.Known tokens := fun t ht => Nat.le_trans (h t ht) hle

theorem Known.cons {o : Issuer} {t : Nat} {tokens : List Nat} (ht : t ≤ o.issued) (h : o.Known tokens) :
    o.Known (t :: tokens) := List.forall_mem_cons.mpr ⟨ht, h⟩

end Issuer

/-- A token that is newer than all of a record. -/
def Newer (record : List Nat) (t : Nat) : Prop := ∀ u ∈ record, u < t

/-- What is issued next is newer than what the issuer has issued. -/
theorem newer_issue {o : Issuer} {record : List Nat} (h : o.Known record) : Newer record o.next := by
  intro u hu
  have hle := h u hu
  show u < o.issued + 1
  omega

theorem record_pairwise {record : List Nat} {t : Nat} (hrecord : record.Pairwise (· > ·)) (ht : Newer record t) :
    (t :: record).Pairwise (· > ·) := List.pairwise_cons.mpr ⟨ht, hrecord⟩

end Errand.Lib.Rotation
