import Errand.Lib.Machine
import Errand.Lib.Numbered
import Mathlib.Order.Nat

/-
  Errand.Server.EmailIdentifiers — what an email identifier selects: `list_emails`,
  `read_email`, `forward_email` and `move_email` of errand/mcp_server.py and `process_messages`
  of errand/email_poller.py, over an IMAP server with any other clients.

  A message has a UID in its folder, given in ascending order and never again. A session has
  a view of the folder it selected: the messages it was told of and not told to be expunged.
  SEARCH, FETCH, COPY and STORE without the UID prefix take the number of a place in it, and
  every identifier is such a number. The server tells of new messages at any time and of
  expunged ones not in answer to SEARCH, FETCH or STORE. Which messages SEARCH finds, which
  commands succeed, and whatever closes a session are in the events; flags other than
  `\Deleted` are left out. A call that fails before its session has selected a folder is none.

  Proved:
  - `denotes_throughout_iff`: all along a run, an identifier only ever selects the message it
    was returned for, if and only if at each of its uses that succeeds the session still has
    every message that was up to it in the folder when it was returned.
  - `another_message_is_read`: where that fails.
-/

namespace Errand.Server.EmailIdentifiers

open Errand.Lib

/-- A folder: its messages by UID, the UID that comes next, and which are marked `\Deleted`. -/
structure Folder where
  live : List Nat
  next : Nat
  deleted : List Nat

def Folder.arrive (f : Folder) : Folder := { f with live := f.live ++ [f.next], next := f.next + 1 }

/-- EXPUNGE by any client of one message. -/
def Folder.remove (f : Folder) (uid : Nat) : Folder := { f with live := f.live.filter (· ≠ uid) }

def Folder.mark (f : Folder) (uid : Nat) : Folder := { f with deleted := uid :: f.deleted }

/-- EXPUNGE: every message that is marked. -/
def Folder.expunge (f : Folder) : Folder := { f with live := f.live.filter (· ∉ f.deleted) }

/-- The message a sequence number selects; the numbers begin at 1. -/
def messageAt (view : List Nat) : Nat → Option Nat
  | 0 => none
  | n + 1 => view[n]?

/-- An identifier: what it is, and what it was returned for. -/
structure Ident where
  folder : String
  number : Nat
  message : Nat
  /-- The messages up to it when it was returned. -/
  upTo : List Nat
  deriving DecidableEq

def identFor (folder : String) (view : List Nat) (n message : Nat) : Ident := ⟨folder, n, message, view.take n⟩

/-- Where the code that has a session is. -/
inductive Job where
  /-- `list_emails` before SEARCH, and with what is left to FETCH. -/
  | listing (limit : Int)
  | list (todo : List Nat) (messages : List Ident)
  /-- `process_messages`: between passes, with the UIDs left, and before a task's commit. -/
  | poll
  | pass (uids : List Nat)
  | fetched (ident : Ident) (uids : List Nat)
  /-- `read_email` and `forward_email` before FETCH. -/
  | read (ident : Ident)
  /-- `move_email` before COPY, before STORE and before EXPUNGE. -/
  | move (ident : Ident) (target : String)
  | copied (ident : Ident)
  | stored

/-- The identifiers the code has in hand, and among them the one it was passed. -/
def Job.idents : Job → List Ident
  | .list _ messages => messages
  | .fetched ident _ => [ident]
  | .read ident => [ident]
  | .move ident _ => [ident]
  | .copied ident => [ident]
  | _ => []

def Job.passed : Job → Option Ident
  | .read ident => some ident
  | .move ident _ => some ident
  | .copied ident => some ident
  | _ => none

/-- The server may tell of an expunged message: an answer other than to SEARCH, FETCH or STORE
    is awaited, as to IDLE, CREATE or COPY. -/
def Job.hears : Job → Bool
  | .poll => true
  | .move _ _ => true
  | .copied _ => true
  | _ => false

structure Session where
  folder : String
  view : List Nat
  /-- The session was told of all messages below. -/
  told : Nat
  job : Job

def Session.to (sess : Session) (job : Job) : Session := { sess with job := job }

inductive Call where
  | listEmails (folder : String) (limit : Int)
  | poller
  | readEmail (ident : Ident)
  | forwardEmail (ident : Ident)
  | moveEmail (ident : Ident) (target : String)

def Call.ident : Call → Option Ident
  | .listEmails _ _ => none
  | .poller => none
  | .readEmail ident => some ident
  | .forwardEmail ident => some ident
  | .moveEmail ident _ => some ident

/-- The folder a call selects; the one an identifier came from is passed with it. -/
def Call.folder : Call → String
  | .listEmails folder _ => folder
  | .poller => "INBOX"
  | .readEmail ident => ident.folder
  | .forwardEmail ident => ident.folder
  | .moveEmail ident _ => ident.folder

def Call.job : Call → Job
  | .listEmails _ limit => .listing limit
  | .poller => .poll
  | .readEmail ident => .read ident
  | .forwardEmail ident => .read ident
  | .moveEmail ident target => .move ident target

structure St where
  folders : String → Folder
  sessions : Nat → Option Session
  /-- The identifiers that were returned, or written into a task. -/
  issued : List Ident
  /-- The uses of an identifier that succeeded, each with the message it selected. -/
  uses : List (Ident × Nat)

inductive Event where
  | arrive (folder : String)
  | remove (folder : String) (uid : Nat)
  | mark (folder : String) (uid : Nat)
  /-- A call that connects and selects its folder. -/
  | connect (i : Nat) (call : Call)
  | search (i : Nat) (found : List Nat)
  /-- FETCH of the next number, and whether its answer is OK and, for `read_email` and
      `forward_email`, holds the message. -/
  | fetch (i : Nat) (ok : Bool)
  /-- The end of a message of the poller's pass, and whether its task was committed. -/
  | commit (i : Nat) (made : Bool)
  | copy (i : Nat) (ok : Bool)
  | store (i : Nat) (ok : Bool)
  | expunge (i : Nat)
  /-- The server tells of an expunged message, and of the new ones. -/
  | hear (i : Nat) (uid : Nat)
  | learn (i : Nat)
  | finish (i : Nat)
  /-- Any error, and the logout. -/
  | close (i : Nat)

/-- `uids[-limit:]`. -/
def lastOf (limit : Int) (uids : List Nat) : List Nat :=
  if 0 < limit then uids.drop (uids.length - limit.toNat) else uids.drop limit.natAbs

def St.put (s : St) (folder : String) (f : Folder) : St := { s with folders := Function.update s.folders folder f }

def St.open (s : St) (i : Nat) (sess : Session) : St :=
  { s with sessions := Function.update s.sessions i (some sess) }

def St.shut (s : St) (i : Nat) : St := { s with sessions := Function.update s.sessions i none }

def St.issue (s : St) (idents : List Ident) : St := { s with issued := s.issued ++ idents }

def St.select (s : St) (ident : Ident) (message : Nat) : St := { s with uses := s.uses ++ [(ident, message)] }

def search (sess : Session) (found : List Nat) : Option Job :=
  match sess.job with
  | .listing limit => some (.list (lastOf limit found) [])
  | .poll => some (.pass found)
  | _ => none

def fetch (s : St) (i : Nat) (sess : Session) (ok : Bool) : Option St :=
  match sess.job with
  | .list (n :: todo) messages =>
    if ok then (messageAt sess.view n).map fun m =>
      s.open i (sess.to (.list todo (messages ++ [identFor sess.folder sess.view n m])))
    else some (s.open i (sess.to (.list todo messages)))
  | .pass (n :: uids) =>
    if ok then (messageAt sess.view n).map fun m =>
      s.open i (sess.to (.fetched (identFor sess.folder sess.view n m) uids))
    else some (s.open i (sess.to (.pass uids)))
  | .read ident =>
    if ok then (messageAt sess.view ident.number).map fun m => (s.select ident m).shut i else some (s.shut i)
  | _ => none

def copy (s : St) (i : Nat) (sess : Session) (ok : Bool) : Option St :=
  match sess.job with
  | .move ident target =>
    if ok then (messageAt sess.view ident.number).map fun m =>
      ((s.select ident m).put target (s.folders target).arrive).open i (sess.to (.copied ident))
    else some (s.shut i)
  | _ => none

/-- What STORE answers is not looked at. -/
def store (s : St) (i : Nat) (sess : Session) (ok : Bool) : Option St :=
  match sess.job with
  | .copied ident =>
    if ok then (messageAt sess.view ident.number).map fun m =>
      ((s.select ident m).put sess.folder ((s.folders sess.folder).mark m)).open i (sess.to .stored)
    else some (s.open i (sess.to .stored))
  | _ => none

def finish (s : St) (i : Nat) (sess : Session) : Option St :=
  match sess.job with
  | .list [] messages => some ((s.issue messages).shut i)
  | .pass [] => some (s.open i (sess.to .poll))
  | _ => none

def step (s : St) : Event → Option St
  | .arrive folder => some (s.put folder (s.folders folder).arrive)
  | .remove folder uid => some (s.put folder ((s.folders folder).remove uid))
  | .mark folder uid => some (s.put folder ((s.folders folder).mark uid))
  | .connect i call =>
    if (s.sessions i).isNone ∧ ∀ ident ∈ call.ident, ident ∈ s.issued then
      let f := s.folders call.folder
      some (s.open i ⟨call.folder, f.live, f.next, call.job⟩)
    else none
  | .search i found => (s.sessions i).bind fun sess =>
    if ∀ n ∈ found, (messageAt sess.view n).isSome then (search sess found).map fun job => s.open i (sess.to job)
    else none
  | .fetch i ok => (s.sessions i).bind fun sess => fetch s i sess ok
  | .commit i made => (s.sessions i).bind fun sess =>
    match sess.job with
    | .fetched ident uids => some ((if made then s.issue [ident] else s).open i (sess.to (.pass uids)))
    | _ => none
  | .copy i ok => (s.sessions i).bind fun sess => copy s i sess ok
  | .store i ok => (s.sessions i).bind fun sess => store s i sess ok
  | .expunge i => (s.sessions i).bind fun sess =>
    match sess.job with
    | .stored => some ((s.put sess.folder (s.folders sess.folder).expunge).shut i)
    | _ => none
  | .hear i uid => (s.sessions i).bind fun sess =>
    if sess.job.hears ∧ uid ∉ (s.folders sess.folder).live then
      some (s.open i { sess with view := sess.view.filter (· ≠ uid) })
    else none
  | .learn i => (s.sessions i).map fun sess =>
    let f := s.folders sess.folder
    s.open i { sess with view := sess.view ++ f.live.filter (sess.told ≤ ·), told := f.next }
  | .finish i => (s.sessions i).bind fun sess => finish s i sess
  | .close i => (s.sessions i).map fun _ => s.shut i

/-- Any folders whose messages are numbered in ascending order. -/
structure Ordered (f : Folder) : Prop where
  ascending : f.live.Pairwise (· < ·)
  below : ∀ uid ∈ f.live, uid < f.next

def start (folders : String → Folder) : St := ⟨folders, fun _ => none, [], []⟩

def machine : Machine St Event := ⟨fun s => ∃ folders, (∀ name, Ordered (folders name)) ∧ s = start folders, step⟩

/-- An identifier denotes one message. -/
def Denotes (s : St) : Prop := ∀ use ∈ s.uses, use.2 = use.1.message

/-- At each use that succeeds, the session has every message up to the identifier's. -/
def Undisturbed (s : St) (i : Nat) : Prop :=
  ∀ sess ident, s.sessions i = some sess → sess.job.passed = some ident → ident.upTo ⊆ sess.view

def Safe (s : St) : Event → Prop
  | .fetch i ok => ok = true → Undisturbed s i
  | .copy i ok => ok = true → Undisturbed s i
  | .store i ok => ok = true → Undisturbed s i
  | _ => True

/-! ## What the steps keep -/

/-- A folder later on: only messages above those it gave have come. -/
structure Grows (f f' : Folder) : Prop where
  live : ∀ uid ∈ f'.live, uid ∈ f.live ∨ f.next ≤ uid
  next : f.next ≤ f'.next

structure Fits (f : Folder) (ident : Ident) : Prop where
  place : messageAt ident.upTo ident.number = some ident.message
  ascending : ident.upTo.Pairwise (· < ·)
  last : ∀ uid ∈ ident.upTo, uid ≤ ident.message
  kept : ∀ uid ∈ f.live, uid ≤ ident.message → uid ∈ ident.upTo
  below : ident.message < f.next

structure Knows (f : Folder) (sess : Session) : Prop where
  ascending : sess.view.Pairwise (· < ·)
  below : ∀ uid ∈ sess.view, uid < sess.told
  told : sess.told ≤ f.next
  kept : ∀ uid ∈ f.live, uid < sess.told → uid ∈ sess.view

/-- A session that was passed an identifier has no message up to it but those it had. -/
structure Holds (sess : Session) (ident : Ident) : Prop where
  told : ident.message < sess.told
  old : ∀ uid ∈ sess.view, uid ≤ ident.message → uid ∈ ident.upTo

structure Runs (f : Folder) (sess : Session) : Prop where
  knows : Knows f sess
  idents : ∀ ident ∈ sess.job.idents, Fits f ident ∧ ident.folder = sess.folder
  passed : ∀ ident, sess.job.passed = some ident → Holds sess ident

structure Inv (s : St) : Prop where
  folders : ∀ name, Ordered (s.folders name)
  sessions : ∀ i sess, s.sessions i = some sess → Runs (s.folders sess.folder) sess
  issued : ∀ ident ∈ s.issued, Fits (s.folders ident.folder) ident

section Folders

variable {f f' : Folder}

theorem ordered_arrive (h : Ordered f) : Ordered f.arrive := by
  constructor
  · show (f.live ++ [f.next]).Pairwise (· < ·)
    rw [List.pairwise_append]
    refine ⟨h.ascending, List.pairwise_singleton _ _, fun x hx y hy => ?_⟩
    rw [List.mem_singleton.mp hy]
    exact h.below x hx
  · intro uid huid
    show uid < f.next + 1
    rcases List.mem_append.mp huid with huid | huid
    · exact Nat.lt_succ_of_lt (h.below uid huid)
    · rw [List.mem_singleton.mp huid]
      exact Nat.lt_succ_self _

theorem grows_arrive (f : Folder) : Grows f f.arrive := by
  refine ⟨fun uid huid => ?_, Nat.le_succ _⟩
  rcases List.mem_append.mp huid with huid | huid
  · exact .inl huid
  · exact .inr (List.mem_singleton.mp huid).ge

theorem ordered_filter (h : Ordered f) (p : Nat → Bool) : Ordered { f with live := f.live.filter p } :=
  ⟨h.ascending.filter p, fun uid huid => h.below uid (List.mem_filter.mp huid).1⟩

theorem grows_filter (f : Folder) (p : Nat → Bool) : Grows f { f with live := f.live.filter p } :=
  ⟨fun _ huid => .inl (List.mem_filter.mp huid).1, le_refl _⟩

theorem ordered_mark (h : Ordered f) (uid : Nat) : Ordered (f.mark uid) := ⟨h.ascending, h.below⟩

theorem grows_mark (f : Folder) (uid : Nat) : Grows f (f.mark uid) := ⟨fun _ h => .inl h, le_refl _⟩

theorem fits_grows {ident : Ident} (h : Fits f ident) (hg : Grows f f') : Fits f' ident := by
  refine ⟨h.place, h.ascending, h.last, fun uid huid hle => ?_, h.below.trans_le hg.next⟩
  rcases hg.live uid huid with hlive | hnew
  · exact h.kept uid hlive hle
  · exact absurd (h.below.trans_le hnew) (not_lt_of_ge hle)

theorem knows_grows {sess : Session} (h : Knows f sess) (hg : Grows f f') : Knows f' sess := by
  refine ⟨h.ascending, h.below, h.told.trans hg.next, fun uid huid hlt => ?_⟩
  rcases hg.live uid huid with hlive | hnew
  · exact h.kept uid hlive hlt
  · exact absurd (hlt.trans_le h.told) (not_lt_of_ge hnew)

theorem runs_grows {sess : Session} (h : Runs f sess) (hg : Grows f f') : Runs f' sess :=
  ⟨knows_grows h.knows hg, fun ident hident => ⟨fits_grows (h.idents ident hident).1 hg, (h.idents ident hident).2⟩,
    h.passed⟩

end Folders

section Sessions

variable {f : Folder} {sess : Session}

/-- A message of the view, and those up to it. -/
theorem messageAt_mem {view : List Nat} {n m : Nat} (h : messageAt view n = some m) : m ∈ view := by
  cases n with
  | zero => cases h
  | succ n => exact List.mem_of_getElem? h

theorem mem_upTo {view : List Nat} (hview : view.Pairwise (· < ·)) {n m uid : Nat} (h : messageAt view n = some m) :
    uid ∈ view.take n ↔ uid ∈ view ∧ uid ≤ m := by
  cases n with
  | zero => cases h
  | succ n => exact Numbered.mem_take_iff hview h

theorem messageAt_upTo {view : List Nat} {n m : Nat} (h : messageAt view n = some m) :
    messageAt (view.take n) n = some m := by
  cases n with
  | zero => cases h
  | succ n =>
    show (view.take (n + 1))[n]? = some m
    rw [List.getElem?_take_of_succ]
    exact h

theorem fits_identFor (hk : Knows f sess) {n m : Nat} (h : messageAt sess.view n = some m) :
    Fits f (identFor sess.folder sess.view n m) := by
  have hm : m < sess.told := hk.below m (messageAt_mem h)
  refine ⟨messageAt_upTo h, hk.ascending.take, fun uid huid => ((mem_upTo hk.ascending h).mp huid).2,
    fun uid huid hle => ?_, hm.trans_le hk.told⟩
  exact (mem_upTo hk.ascending h).mpr ⟨hk.kept uid huid (hle.trans_lt hm), hle⟩

/-- A session that goes on has what it had, and whatever it comes to have fits. -/
theorem runs_to {job : Job} (h : Runs f sess)
    (hidents : ∀ ident ∈ job.idents, Fits f ident ∧ ident.folder = sess.folder)
    (hpassed : ∀ ident, job.passed = some ident → sess.job.passed = some ident) : Runs f (sess.to job) where
  knows := ⟨h.knows.ascending, h.knows.below, h.knows.told, h.knows.kept⟩
  idents := hidents
  passed ident hident := ⟨(h.passed ident (hpassed ident hident)).told, (h.passed ident (hpassed ident hident)).old⟩

/-- A job that has no identifier in hand. -/
theorem runs_without {job : Job} (h : Runs f sess) (hjob : job.idents = [] ∧ job.passed = none) :
    Runs f (sess.to job) := by
  refine runs_to h (fun ident hident => ?_) (fun ident hident => ?_)
  · rw [hjob.1] at hident
    cases hident
  · rw [hjob.2] at hident
    cases hident

theorem passed_mem {job : Job} {ident : Ident} (h : job.passed = some ident) : ident ∈ job.idents := by
  cases job with
  | read _ => cases h; exact List.mem_cons_self
  | move _ _ => cases h; exact List.mem_cons_self
  | copied _ => cases h; exact List.mem_cons_self
  | _ => cases h

theorem call_idents (call : Call) {ident : Ident} (h : ident ∈ call.job.idents) :
    call.ident = some ident ∧ ident.folder = call.folder := by
  cases call with
  | listEmails _ _ => cases h
  | poller => cases h
  | readEmail _ => cases List.mem_singleton.mp h; exact ⟨rfl, rfl⟩
  | forwardEmail _ => cases List.mem_singleton.mp h; exact ⟨rfl, rfl⟩
  | moveEmail _ _ => cases List.mem_singleton.mp h; exact ⟨rfl, rfl⟩

theorem runs_connect (ho : Ordered f) (call : Call) (hident : ∀ ident, call.ident = some ident → Fits f ident) :
    Runs f ⟨call.folder, f.live, f.next, call.job⟩ where
  knows := ⟨ho.ascending, ho.below, le_refl _, fun _ huid _ => huid⟩
  idents ident h := ⟨hident ident (call_idents call h).1, (call_idents call h).2⟩
  passed ident h :=
    have hfits := hident ident (call_idents call (passed_mem h)).1
    ⟨hfits.below, hfits.kept⟩

theorem runs_hear (h : Runs f sess) {uid : Nat} (hgone : uid ∉ f.live) :
    Runs f { sess with view := sess.view.filter (· ≠ uid) } where
  knows := by
    refine ⟨h.knows.ascending.filter _, fun u hu => h.knows.below u (List.mem_filter.mp hu).1, h.knows.told,
      fun u hu hlt => ?_⟩
    refine List.mem_filter.mpr ⟨h.knows.kept u hu hlt, decide_eq_true ?_⟩
    rintro rfl
    exact hgone hu
  idents := h.idents
  passed ident hident :=
    ⟨(h.passed ident hident).told, fun u hu hle => (h.passed ident hident).old u (List.mem_filter.mp hu).1 hle⟩

/-- New messages are above those the session was told of. -/
theorem mem_learned {u : Nat} (h : u ∈ sess.view ++ f.live.filter (sess.told ≤ ·)) :
    u ∈ sess.view ∨ u ∈ f.live ∧ sess.told ≤ u := by
  rcases List.mem_append.mp h with h | h
  · exact .inl h
  · exact .inr ⟨(List.mem_filter.mp h).1, of_decide_eq_true (List.mem_filter.mp h).2⟩

theorem runs_learn (ho : Ordered f) (h : Runs f sess) :
    Runs f { sess with view := sess.view ++ f.live.filter (sess.told ≤ ·), told := f.next } where
  knows := by
    refine ⟨?_, fun u hu => ?_, le_refl _, fun u hu _ => ?_⟩
    · show (sess.view ++ f.live.filter (sess.told ≤ ·)).Pairwise (· < ·)
      rw [List.pairwise_append]
      refine ⟨h.knows.ascending, ho.ascending.filter _, fun x hx y hy => ?_⟩
      exact (h.knows.below x hx).trans_le (of_decide_eq_true (List.mem_filter.mp hy).2)
    · rcases mem_learned hu with hu | ⟨hu, -⟩
      · exact (h.knows.below u hu).trans_le h.knows.told
      · exact ho.below u hu
    · rcases Nat.lt_or_ge u sess.told with hlt | hge
      · exact List.mem_append_left _ (h.knows.kept u hu hlt)
      · exact List.mem_append_right _ (List.mem_filter.mpr ⟨hu, decide_eq_true hge⟩)
  idents := h.idents
  passed ident hident := by
    have hp := h.passed ident hident
    refine ⟨hp.told.trans_le h.knows.told, fun u hu hle => ?_⟩
    rcases mem_learned hu with hu | ⟨-, hnew⟩
    · exact hp.old u hu hle
    · exact absurd (hp.told.trans_le hnew) (not_lt_of_ge hle)

/-- A number selects the message it was returned for exactly if all of those up to it are
    still in the view. -/
theorem select_iff {ident : Ident} (h : Runs f sess) (hpassed : sess.job.passed = some ident) {m : Nat}
    (hm : messageAt sess.view ident.number = some m) : m = ident.message ↔ ident.upTo ⊆ sess.view := by
  have hfits := (h.idents ident (passed_mem hpassed)).1
  have hplace := hfits.place
  have hold := (h.passed ident hpassed).old
  cases hn : ident.number with
  | zero =>
    rw [hn] at hm
    cases hm
  | succ i =>
    rw [hn] at hm hplace
    have hiff := Numbered.getElem?_eq_iff_subset h.knows.ascending hfits.ascending hplace hfits.last hold
    rw [← hiff]
    have hm : sess.view[i]? = some m := hm
    rw [hm]
    exact Option.some_inj.symm

end Sessions

section States

variable {s : St}

theorem inv_start {folders : String → Folder} (h : ∀ name, Ordered (folders name)) : Inv (start folders) where
  folders := h
  sessions _ _ hi := by cases hi
  issued _ hident := by cases hident

theorem inv_put (hi : Inv s) (name : String) {f : Folder} (ho : Ordered f) (hg : Grows (s.folders name) f) :
    Inv (s.put name f) := by
  have hall : ∀ other,
      Ordered ((s.put name f).folders other) ∧ Grows (s.folders other) ((s.put name f).folders other) := by
    intro other
    by_cases hname : other = name
    · subst hname
      have hself : (s.put other f).folders other = f := Function.update_self ..
      rw [hself]
      exact ⟨ho, hg⟩
    · have hother : (s.put name f).folders other = s.folders other := Function.update_of_ne hname ..
      rw [hother]
      exact ⟨hi.folders other, ⟨fun _ h => .inl h, le_refl _⟩⟩
  exact ⟨fun other => (hall other).1, fun i sess h => runs_grows (hi.sessions i sess h) (hall _).2,
    fun ident h => fits_grows (hi.issued ident h) (hall _).2⟩

theorem inv_open (hi : Inv s) (i : Nat) {sess : Session} (h : Runs (s.folders sess.folder) sess) :
    Inv (s.open i sess) := by
  refine ⟨hi.folders, fun j other hj => ?_, hi.issued⟩
  by_cases hji : j = i
  · subst hji
    have hself : (s.open j sess).sessions j = some sess := Function.update_self ..
    cases hself.symm.trans hj
    exact h
  · have hother : (s.open i sess).sessions j = s.sessions j := Function.update_of_ne hji ..
    exact hi.sessions j other (hother ▸ hj)

theorem inv_shut (hi : Inv s) (i : Nat) : Inv (s.shut i) := by
  refine ⟨hi.folders, fun j other hj => ?_, hi.issued⟩
  by_cases hji : j = i
  · subst hji
    have hself : (s.shut j).sessions j = none := Function.update_self ..
    cases hself.symm.trans hj
  · have hother : (s.shut i).sessions j = s.sessions j := Function.update_of_ne hji ..
    exact hi.sessions j other (hother ▸ hj)

theorem inv_issue (hi : Inv s) {idents : List Ident} (h : ∀ ident ∈ idents, Fits (s.folders ident.folder) ident) :
    Inv (s.issue idents) := by
  refine ⟨hi.folders, hi.sessions, fun ident hident => ?_⟩
  rcases List.mem_append.mp hident with hident | hident
  · exact hi.issued ident hident
  · exact h ident hident

theorem inv_select (hi : Inv s) (ident : Ident) (m : Nat) : Inv (s.select ident m) :=
  ⟨hi.folders, hi.sessions, hi.issued⟩

theorem denotes_select (ident : Ident) (m : Nat) : Denotes (s.select ident m) ↔ Denotes s ∧ m = ident.message := by
  constructor
  · exact fun h => ⟨fun use huse => h use (List.mem_append_left _ huse),
      h (ident, m) (List.mem_append_right _ List.mem_cons_self)⟩
  · rintro ⟨h, hm⟩ use huse
    rcases List.mem_append.mp huse with huse | huse
    · exact h use huse
    · rw [List.mem_singleton.mp huse]
      exact hm

end States

section Steps

variable {s s' : St} {i : Nat} {sess : Session} {ok : Bool}

theorem undisturbed_iff (hs : s.sessions i = some sess) {ident : Ident} (hp : sess.job.passed = some ident) :
    Undisturbed s i ↔ ident.upTo ⊆ sess.view := by
  refine ⟨fun h => h sess ident hs hp, fun h other ident' hother hp' => ?_⟩
  cases hs.symm.trans hother
  cases hp.symm.trans hp'
  exact h

theorem undisturbed_of_none (hs : s.sessions i = some sess) (hp : sess.job.passed = none) : Undisturbed s i := by
  intro other ident hother hident
  cases hs.symm.trans hother
  cases hp.symm.trans hident

/-- A use keeps what identifiers denote exactly if nothing has disturbed it. -/
theorem use_iff (hi : Inv s) (hs : s.sessions i = some sess) {ident : Ident} (hp : sess.job.passed = some ident)
    {m : Nat} (hm : messageAt sess.view ident.number = some m) (hd : Denotes s) :
    Denotes (s.select ident m) ↔ (true = true → Undisturbed s i) := by
  rw [denotes_select, and_iff_right hd, undisturbed_iff hs hp, select_iff (hi.sessions i sess hs) hp hm]
  exact ⟨fun h _ => h, fun h => h rfl⟩

theorem fetch_keeps (hi : Inv s) (hs : s.sessions i = some sess) (hst : fetch s i sess ok = some s') :
    Inv s' ∧ (Denotes s → (Denotes s' ↔ (ok = true → Undisturbed s i))) := by
  have hr := hi.sessions i sess hs
  rw [fetch] at hst
  split at hst
  · rename_i n todo messages hjob
    have hp : sess.job.passed = none := by rw [hjob]; rfl
    have hmessages : ∀ ident ∈ messages, Fits (s.folders sess.folder) ident ∧ ident.folder = sess.folder := by
      intro ident hident
      exact hr.idents ident (by rw [hjob]; exact hident)
    cases ok with
    | false =>
      cases hst
      exact ⟨inv_open hi i (runs_to hr hmessages (fun _ h => by cases h)), fun hd => iff_of_true hd nofun⟩
    | true =>
      obtain ⟨m, hm, rfl⟩ := Option.map_eq_some_iff.mp hst
      refine ⟨inv_open hi i (runs_to hr (fun ident hident => ?_) (fun _ h => by cases h)), fun hd =>
        iff_of_true hd fun _ => undisturbed_of_none hs hp⟩
      rcases List.mem_append.mp hident with hident | hident
      · exact hmessages ident hident
      · rw [List.mem_singleton.mp hident]
        exact ⟨fits_identFor hr.knows hm, rfl⟩
  · rename_i n uids hjob
    have hp : sess.job.passed = none := by rw [hjob]; rfl
    cases ok with
    | false =>
      cases hst
      exact ⟨inv_open hi i (runs_without hr ⟨rfl, rfl⟩), fun hd => iff_of_true hd nofun⟩
    | true =>
      obtain ⟨m, hm, rfl⟩ := Option.map_eq_some_iff.mp hst
      refine ⟨inv_open hi i (runs_to hr (fun ident hident => ?_) (fun _ h => by cases h)), fun hd =>
        iff_of_true hd fun _ => undisturbed_of_none hs hp⟩
      rw [List.mem_singleton.mp hident]
      exact ⟨fits_identFor hr.knows hm, rfl⟩
  · rename_i ident hjob
    have hp : sess.job.passed = some ident := by rw [hjob]; rfl
    cases ok with
    | false =>
      cases hst
      exact ⟨inv_shut hi i, fun hd => iff_of_true hd nofun⟩
    | true =>
      obtain ⟨m, hm, rfl⟩ := Option.map_eq_some_iff.mp hst
      exact ⟨inv_shut (inv_select hi ident m) i, fun hd => use_iff hi hs hp hm hd⟩
  · cases hst

/-- COPY: the source session goes on, and the target has one message more. -/
theorem copy_keeps (hi : Inv s) (hs : s.sessions i = some sess) (hst : copy s i sess ok = some s') :
    Inv s' ∧ (Denotes s → (Denotes s' ↔ (ok = true → Undisturbed s i))) := by
  rw [copy] at hst
  split at hst
  · rename_i ident target hjob
    have hp : sess.job.passed = some ident := by rw [hjob]; rfl
    cases ok with
    | false =>
      cases hst
      exact ⟨inv_shut hi i, fun hd => iff_of_true hd nofun⟩
    | true =>
      obtain ⟨m, hm, rfl⟩ := Option.map_eq_some_iff.mp hst
      have hput : Inv ((s.select ident m).put target (s.folders target).arrive) :=
        inv_put (inv_select hi ident m) target (ordered_arrive (hi.folders target)) (grows_arrive _)
      have hr := hput.sessions i sess hs
      refine ⟨inv_open hput i (runs_to hr (fun other hother => ?_) (fun other h => ?_)),
        fun hd => use_iff hi hs hp hm hd⟩
      · exact hr.idents other (by rw [hjob]; exact hother)
      · cases h
        exact hp
  · cases hst

theorem store_keeps (hi : Inv s) (hs : s.sessions i = some sess) (hst : store s i sess ok = some s') :
    Inv s' ∧ (Denotes s → (Denotes s' ↔ (ok = true → Undisturbed s i))) := by
  rw [store] at hst
  split at hst
  · rename_i ident hjob
    have hp : sess.job.passed = some ident := by rw [hjob]; rfl
    cases ok with
    | false =>
      cases hst
      exact ⟨inv_open hi i (runs_without (hi.sessions i sess hs) ⟨rfl, rfl⟩),
        fun hd => iff_of_true hd nofun⟩
    | true =>
      obtain ⟨m, hm, rfl⟩ := Option.map_eq_some_iff.mp hst
      have hput : Inv ((s.select ident m).put sess.folder ((s.folders sess.folder).mark m)) :=
        inv_put (inv_select hi ident m) sess.folder (ordered_mark (hi.folders sess.folder) m) (grows_mark _ m)
      exact ⟨inv_open hput i (runs_without (hput.sessions i sess hs) ⟨rfl, rfl⟩),
        fun hd => use_iff hi hs hp hm hd⟩
  · cases hst

/-- What a job that has no identifier becomes on SEARCH has none either. -/
theorem search_job {found : List Nat} {job : Job} (h : search sess found = some job) :
    job.idents = [] ∧ job.passed = none := by
  rw [search] at h
  split at h <;> cases h <;> exact ⟨rfl, rfl⟩

theorem finish_keeps (hi : Inv s) (hs : s.sessions i = some sess) (hst : finish s i sess = some s') :
    Inv s' ∧ s'.uses = s.uses := by
  have hr := hi.sessions i sess hs
  rw [finish] at hst
  split at hst
  · rename_i messages hjob
    cases hst
    refine ⟨inv_shut (inv_issue hi fun ident hident => ?_) i, rfl⟩
    obtain ⟨hfits, hfolder⟩ := hr.idents ident (by rw [hjob]; exact hident)
    rw [hfolder]
    exact hfits
  · cases hst
    exact ⟨inv_open hi i (runs_without hr ⟨rfl, rfl⟩), rfl⟩
  · cases hst

/-- The step that commits a task issues its identifier. -/
theorem commit_inv (hi : Inv s) (hs : s.sessions i = some sess) {ident : Ident} {uids : List Nat}
    (hjob : sess.job = .fetched ident uids) (made : Bool) :
    Inv ((if made then s.issue [ident] else s).open i (sess.to (.pass uids))) := by
  have hr := hi.sessions i sess hs
  cases made with
  | false => exact inv_open hi i (runs_without hr ⟨rfl, rfl⟩)
  | true =>
    obtain ⟨hfits, hfolder⟩ := hr.idents ident (by rw [hjob]; exact List.mem_cons_self)
    have hissue : Inv (s.issue [ident]) := inv_issue hi fun other hother => by
      rw [List.mem_singleton.mp hother, hfolder]
      exact hfits
    exact inv_open hissue i (runs_without hr ⟨rfl, rfl⟩)

theorem step_denotes {e : Event} (hi : Inv s) (hst : step s e = some s') :
    Inv s' ∧ (Denotes s → (Denotes s' ↔ Safe s e)) := by
  cases e with
  | arrive folder =>
    cases hst
    exact ⟨inv_put hi folder (ordered_arrive (hi.folders folder)) (grows_arrive _), fun hd => iff_of_true hd trivial⟩
  | remove folder uid =>
    cases hst
    exact ⟨inv_put hi folder (ordered_filter (hi.folders folder) _) (grows_filter _ _),
      fun hd => iff_of_true hd trivial⟩
  | mark folder uid =>
    cases hst
    exact ⟨inv_put hi folder (ordered_mark (hi.folders folder) uid) (grows_mark _ uid),
      fun hd => iff_of_true hd trivial⟩
  | connect i call =>
    rw [step] at hst
    split at hst
    · rename_i hcall
      cases hst
      have hfits : ∀ ident, call.ident = some ident → Fits (s.folders call.folder) ident := by
        intro ident hident
        have hfolder : ident.folder = call.folder := by
          cases call <;> cases hident <;> rfl
        rw [← hfolder]
        exact hi.issued ident (hcall.2 ident hident)
      exact ⟨inv_open hi i (runs_connect (hi.folders call.folder) call hfits), fun hd => iff_of_true hd trivial⟩
    · cases hst
  | search i found =>
    rw [step] at hst
    obtain ⟨sess, hs, hst⟩ := Option.bind_eq_some_iff.mp hst
    split at hst
    · obtain ⟨job, hjob, rfl⟩ := Option.map_eq_some_iff.mp hst
      exact ⟨inv_open hi i (runs_without (hi.sessions i sess hs) (search_job hjob)), fun hd => iff_of_true hd trivial⟩
    · cases hst
  | fetch i ok =>
    rw [step] at hst
    obtain ⟨sess, hs, hst⟩ := Option.bind_eq_some_iff.mp hst
    exact fetch_keeps hi hs hst
  | commit i made =>
    rw [step] at hst
    obtain ⟨sess, hs, hst⟩ := Option.bind_eq_some_iff.mp hst
    split at hst
    · rename_i ident uids hjob
      cases hst
      refine ⟨commit_inv hi hs hjob made, fun hd => iff_of_true ?_ trivial⟩
      cases made <;> exact hd
    · cases hst
  | copy i ok =>
    rw [step] at hst
    obtain ⟨sess, hs, hst⟩ := Option.bind_eq_some_iff.mp hst
    exact copy_keeps hi hs hst
  | store i ok =>
    rw [step] at hst
    obtain ⟨sess, hs, hst⟩ := Option.bind_eq_some_iff.mp hst
    exact store_keeps hi hs hst
  | expunge i =>
    rw [step] at hst
    obtain ⟨sess, hs, hst⟩ := Option.bind_eq_some_iff.mp hst
    split at hst
    · cases hst
      have hput : Inv (s.put sess.folder (s.folders sess.folder).expunge) :=
        inv_put hi sess.folder (ordered_filter (hi.folders sess.folder) _) (grows_filter _ _)
      exact ⟨inv_shut hput i, fun hd => iff_of_true hd trivial⟩
    · cases hst
  | hear i uid =>
    rw [step] at hst
    obtain ⟨sess, hs, hst⟩ := Option.bind_eq_some_iff.mp hst
    split at hst
    · rename_i hgone
      cases hst
      exact ⟨inv_open hi i (runs_hear (hi.sessions i sess hs) hgone.2), fun hd => iff_of_true hd trivial⟩
    · cases hst
  | learn i =>
    rw [step] at hst
    obtain ⟨sess, hs, rfl⟩ := Option.map_eq_some_iff.mp hst
    exact ⟨inv_open hi i (runs_learn (hi.folders sess.folder) (hi.sessions i sess hs)),
      fun hd => iff_of_true hd trivial⟩
  | finish i =>
    rw [step] at hst
    obtain ⟨sess, hs, hst⟩ := Option.bind_eq_some_iff.mp hst
    obtain ⟨hinv, huses⟩ := finish_keeps hi hs hst
    refine ⟨hinv, fun hd => iff_of_true ?_ trivial⟩
    rw [Denotes, huses]
    exact hd
  | close i =>
    rw [step] at hst
    obtain ⟨sess, -, rfl⟩ := Option.map_eq_some_iff.mp hst
    exact ⟨inv_shut hi i, fun hd => iff_of_true hd trivial⟩

end Steps

/-- An identifier denotes one message in exactly the runs in which no use is disturbed. -/
theorem denotes_throughout_iff (folders : String → Folder) (ho : ∀ name, Ordered (folders name)) (events : List Event) :
    (∀ n s, machine.exec (start folders) (events.take n) = some s → Denotes s) ↔
      ∀ p ∈ machine.trace (start folders) events, Safe p.1 p.2 := by
  have hstart : Denotes (start folders) := nofun
  have h : (∀ n s, machine.exec (start folders) (events.take n) = some s → Denotes s) ↔
      Denotes (start folders) ∧ ∀ p ∈ machine.trace (start folders) events, Safe p.1 p.2 :=
    Machine.throughout_iff (M := machine) (A := fun _ => True) (C := Safe) (I := Inv) (P := Denotes)
      (fun s e s' hi _ hst => step_denotes hi hst) (inv_start ho) fun _ _ => trivial
  rw [h]
  exact and_iff_right hstart

/-! ## A run -/

/-- Two messages in every folder. -/
def mailbox : String → Folder := fun _ => ⟨[1, 2], 3, []⟩

theorem ordered_mailbox (name : String) : Ordered (mailbox name) := ⟨by simp [mailbox], by simp [mailbox]⟩

def listing : List Event :=
  [.connect 0 (.listEmails "INBOX" 20), .search 0 [1, 2], .fetch 0 true, .fetch 0 true, .finish 0]

def first : Ident := ⟨"INBOX", 1, 1, [1]⟩

/-- Another client expunges the first message before `read_email` is called with its identifier. -/
def reading : List Event := [.remove "INBOX" 1, .connect 0 (.readEmail first), .fetch 0 true]

theorem reading_denotes_iff :
    (∀ n s, machine.exec (start mailbox) ((listing ++ reading).take n) = some s → Denotes s) ↔
      ∀ p ∈ machine.trace (start mailbox) (listing ++ reading), Safe p.1 p.2 :=
  denotes_throughout_iff mailbox ordered_mailbox (listing ++ reading)

/-- The first identifier was returned for the first message; the second one is read. -/
theorem another_message_is_read :
    ∃ s, machine.exec (start mailbox) (listing ++ reading) = some s ∧ s.uses = [(first, 2)] ∧ ¬ Denotes s := by
  refine ⟨_, rfl, rfl, fun h => ?_⟩
  cases h (first, 2) List.mem_cons_self

end Errand.Server.EmailIdentifiers
