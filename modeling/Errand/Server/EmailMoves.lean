import Errand.Lib.Imap

/-
  Errand.Server.EmailMoves — `move_email` of errand/mcp_server.py over an IMAP server: which
  messages it takes out of the source folder, and which folders it moves to.

  The tool sends LIST of the folder in quotes, SELECT, CREATE, COPY, STORE of `\Deleted` and
  EXPUNGE, all but the first with its arguments as they are. Each is answered OK, NO, or the
  client raises, before the server carried the command out or after. A server refuses what it
  cannot read. What is behind a line break in an argument is no part of the command; what the
  server makes of it is open.

  Proved:
  - `attributesOf_line`: the code reads the attributes that LIST has of a mailbox.
  - `accepts_clear`: of a folder that is not in quotes, and that LIST answers, the checks see the
    mailbox that the server takes it for.
  - `moves_iff`: a success has moved the message that is named and no other, an error has taken
    none away, and no folder that is accepted is a blocked mailbox, exactly if the folder is
    clear, and where COPY is carried out EXPUNGE finds what is named marked and nothing else.
  - `another_message_is_expunged`.
-/

namespace Errand.Server.EmailMoves

open Errand.Lib Errand.Lib.PyStr Errand.Lib.Imap

/-! ## The checks -/

def blockedFolderNames : List Text :=
  ["trash", "deleted", "deleted items", "deleted messages", "junk", "spam", "junk email"].map String.toList

/-- `s.rsplit(c, 1)[-1]`. -/
def lastPiece (c : Char) (s : Text) : Text := (s.reverse.takeWhile (· ≠ c)).reverse

/-- `_is_blocked_folder`. -/
def isBlockedFolder (folderName : Text) (folderAttributes : List Text) : Bool :=
  blockedFolderNames.contains (lower (lastPiece '.' (lastPiece '/' folderName))) ||
    folderAttributes.any fun attr => lower attr = "\\trash".toList || lower attr = "\\junk".toList

/-- `re.match(r'\(([^)]*)\)', line)` and its group's `split()`. -/
def attributesOf (line : Text) : Option (List Text) :=
  match line with
  | '(' :: rest =>
    let (group, behind) := splitRun (· ≠ ')') rest
    if behind = [] then none else some ((group.splitOnP isSpace).filter (· ≠ []))
  | _ => none

/-! ## The server's answers -/

/-- What a command is answered; the client may raise before the server carries it out or after. -/
inductive Answer where
  | ok
  | no (lines : String)
  | raised (text : String) (done : Bool)

inductive Resp where
  | ok (lines : List Text)
  | no (lines : String)
  | raised (text : String)

/-- The line of a command ends in one of its arguments. -/
def broken (s : Text) : Bool := s.contains '\r' || s.contains '\n'

def arguments : Command → List Text
  | .list pattern => [pattern]
  | .select mailbox => [mailbox]
  | .create mailbox => [mailbox]
  | .copy set mailbox => [set, mailbox]
  | .store set => [set]
  | .expunge => []

structure Wire where
  delimiter : Char
  /-- A command whose line ends in an argument. -/
  further : Command → Session → Resp × Session
  refused : String

def linesOf (delimiter : Char) (s : Session) : Command → List Text
  | .list pattern => ((list? delimiter s pattern).getD []).map (listLine delimiter)
  | _ => []

def send (wire : Wire) (answer : Answer) (c : Command) (s : Session) : Resp × Session :=
  if (arguments c).any broken then wire.further c s
  else
    match answer with
    | .raised text done => (.raised text, if done then (perform wire.delimiter s c).getD s else s)
    | .no lines => (.no lines, s)
    | .ok =>
      match perform wire.delimiter s c with
      | some s' => (.ok (linesOf wire.delimiter s c), s')
      | none => (.no wire.refused, s)

/-! ## move_email -/

structure Answers where
  /-- The email platform has credentials. -/
  configured : Bool
  /-- What connecting raises. -/
  connect : Option String
  list : Answer
  select : Answer
  create : Answer
  copy : Answer
  store : Answer
  expunge : Answer

inductive Report where
  | success (message : String)
  | error (text : String)
  deriving DecidableEq

/-- A call, with what the server answers to it. -/
structure Call where
  messageUid : Text
  folder : Text
  sourceFolder : Text
  mailboxes : List (Text × Mailbox)
  wire : Wire
  answers : Answers

def notPermitted (folder : Text) : String := "Cannot move to " ++ String.ofList folder ++ " — deletion is not permitted"

/-- A line of LIST has an attribute that is blocked. -/
def blockedByAttributes (folder : Text) : Resp → Bool
  | .ok lines => lines.any fun line =>
    match attributesOf line with
    | some attrs => isBlockedFolder folder attrs
    | none => false
  | _ => false

/-- The messages of the mailbox that an argument names. -/
def messagesOf (mailbox : Text) (s : Session) : List Message :=
  (((mailboxName mailbox).bind s.mailbox).map (·.messages)).getD []

namespace Call

def start (call : Call) : Session := ⟨call.mailboxes, none⟩

/-- From STORE on. -/
def deleted (call : Call) (s : Session) : Report × Session :=
  match send call.wire call.answers.store (.store call.messageUid) s with
  | (.raised text, s) => (.error text, s)
  | (_, s) =>
    match send call.wire call.answers.expunge .expunge s with
    | (.raised text, s) => (.error text, s)
    | (_, s) => (.success ("Moved to " ++ String.ofList call.folder), s)

/-- From SELECT on. -/
def moved (call : Call) (s : Session) : Report × Session :=
  match send call.wire call.answers.select (.select call.sourceFolder) s with
  | (.raised text, s) => (.error text, s)
  | (_, s) =>
    -- An error of CREATE is passed over.
    let s := (send call.wire call.answers.create (.create call.folder) s).2
    match send call.wire call.answers.copy (.copy call.messageUid call.folder) s with
    | (.raised text, s) => (.error text, s)
    | (.no lines, s) => (.error ("COPY failed: " ++ lines), s)
    | (.ok _, s) => call.deleted s

def moveEmail (call : Call) : Report × Session :=
  if !call.answers.configured then (.error "Email platform not configured", call.start)
  else if isBlockedFolder call.folder [] then (.error (notPermitted call.folder), call.start)
  else
    match call.answers.connect with
    | some text => (.error text, call.start)
    | none =>
      match send call.wire call.answers.list (.list call.folder) call.start with
      | (.raised text, s) => (.error text, s)
      | (response, s) =>
        if blockedByAttributes call.folder response then (.error (notPermitted call.folder), s)
        else call.moved s

/-! ## What a move is -/

/-- The folder passes both checks. -/
def accepts (call : Call) : Bool :=
  !isBlockedFolder call.folder [] &&
    match (send call.wire call.answers.list (.list call.folder) call.start).1 with
    | .raised _ => false
    | response => !blockedByAttributes call.folder response

/-- What the folder denotes on the server has no blocked name and no blocked attribute. -/
def Unblocked (call : Call) : Prop :=
  ∀ name, mailboxName call.folder = some name → isBlockedFolder name [] = false ∧
    ∀ b, Dict.get? call.mailboxes name = some b → isBlockedFolder name b.attributes = false

def sourceMessages (call : Call) : List Message := messagesOf call.sourceFolder call.start

/-- The places that the identifier names in a mailbox of so many messages. -/
def named (call : Call) (size : Nat) : Nat → Bool := covers size ((sequenceSet call.messageUid).getD [])

/-- The messages that the identifier names. -/
def namedMessages (call : Call) : List Message := picked (call.named call.sourceMessages.length) 1 call.sourceMessages

/-- The message that is named is out of the source, nothing else is, and it is in the target. -/
def Taken (call : Call) (s : Session) : Prop :=
  ∃ m, call.namedMessages = [m] ∧
    (messagesOf call.sourceFolder s).map Message.uid = (call.sourceMessages.map Message.uid).filter (· ≠ m.uid) ∧
    ∃ y ∈ messagesOf call.folder s, y.email = m.email ∧ y.uid ∉ (messagesOf call.folder call.start).map Message.uid

/-- No message is out of the source. -/
def Untouched (call : Call) (s : Session) : Prop :=
  ∀ m ∈ call.sourceMessages, m.uid ∈ (messagesOf call.sourceFolder s).map Message.uid

/-- What the tool is to do. -/
structure Moves (call : Call) : Prop where
  success : ∀ message, call.moveEmail.1 = .success message → call.Taken call.moveEmail.2
  error : ∀ text, call.moveEmail.1 = .error text → call.Untouched call.moveEmail.2
  allowed : call.accepts = true → call.Unblocked

/-! ## When it is -/

/-- No argument ends the line of its command. -/
def Unbroken (call : Call) : Prop :=
  broken call.messageUid = false ∧ broken call.folder = false ∧ broken call.sourceFolder = false

/-- The checks see what the server takes the folder for. -/
def FolderClear (call : Call) : Prop :=
  isBlockedFolder call.folder [] = true ∨ (∃ text done, call.answers.list = .raised text done) ∨
    (call.folder.head? ≠ some '"' ∧ call.answers.list = .ok) ∨ call.Unblocked

/-- The session behind SELECT and CREATE. -/
def opened (call : Call) : Session :=
  (send call.wire call.answers.create (.create call.folder)
    (send call.wire call.answers.select (.select call.sourceFolder) call.start).2).2

/-- COPY is reached and answered OK. -/
def Copies (call : Call) : Prop :=
  call.answers.configured = true ∧ call.answers.connect = none ∧ call.accepts = true ∧
    (∀ text done, call.answers.select ≠ .raised text done) ∧
    ∃ lines, (send call.wire call.answers.copy (.copy call.messageUid call.folder) call.opened).1 = .ok lines

/-- The source's messages as STORE leaves them. -/
def stored (call : Call) : List Message :=
  match call.answers.store with
  | .ok =>
    -- What is copied into the source itself is counted by the identifier, too.
    let copies := if mailboxName call.folder = mailboxName call.sourceFolder then call.namedMessages.length else 0
    mark (call.named (call.sourceMessages.length + copies)) 1 call.sourceMessages
  | _ => call.sourceMessages

/-- Where COPY was carried out, EXPUNGE takes out what is named and nothing else, or nothing. -/
def Clean (call : Call) : Prop :=
  match call.answers.store, call.answers.expunge with
  | .raised _ _, _ => True
  | _, .raised _ false => True
  | _, .raised _ true => ∀ x ∈ call.stored, x.deleted = false
  | _, .no _ => False
  | _, .ok => mailboxName call.folder ≠ mailboxName call.sourceFolder ∧ ∃ m, call.namedMessages = [m] ∧
      ∀ x ∈ call.stored, x.deleted = decide (x.uid = m.uid)

end Call

/-! ## The folder checks -/

theorem intercalate_cons (w : Text) {ws : List Text} (h : ws ≠ []) :
    [' '].intercalate (w :: ws) = w ++ ' ' :: [' '].intercalate ws := by
  rw [List.intercalate_cons_of_ne_nil h, List.append_assoc]
  rfl

/-- The words between blanks. -/
theorem words_intercalate {ws : List Text} (h : ∀ w ∈ ws, w ≠ [] ∧ ∀ c ∈ w, isSpace c = false) :
    (([' '].intercalate ws).splitOnP isSpace).filter (· ≠ []) = ws := by
  induction ws with
  | nil => rfl
  | cons w ws ih =>
    obtain ⟨hne, hplain⟩ := h w List.mem_cons_self
    have hrest := ih fun v hv => h v (List.mem_cons_of_mem _ hv)
    by_cases hnil : ws = []
    · subst hnil
      rw [List.intercalate_singleton, List.splitOnP_eq_singleton hplain, List.filter_cons_of_pos (by simpa using hne)]
      rfl
    · rw [intercalate_cons w hnil, List.splitOnP_append_cons_of_forall_mem hplain ' ' (by decide),
        List.filter_cons_of_pos (by simpa using hne), hrest]

theorem mem_intercalate {ws : List Text} {c : Char} (h : c ∈ [' '].intercalate ws) : c = ' ' ∨ ∃ w ∈ ws, c ∈ w := by
  induction ws with
  | nil => cases h
  | cons w ws ih =>
    by_cases hnil : ws = []
    · subst hnil
      rw [List.intercalate_singleton] at h
      exact .inr ⟨w, List.mem_cons_self, h⟩
    · rw [intercalate_cons w hnil] at h
      rcases List.mem_append.mp h with h | h
      · exact .inr ⟨w, List.mem_cons_self, h⟩
      · rcases List.mem_cons.mp h with rfl | h
        · exact .inl rfl
        · rcases ih h with h | ⟨v, hv, h⟩
          · exact .inl h
          · exact .inr ⟨v, List.mem_cons_of_mem _ hv, h⟩

/-- The code reads the attributes that LIST has of a mailbox. -/
theorem attributesOf_line (delimiter : Char) (item : Text × Mailbox) :
    attributesOf (listLine delimiter item) = some item.2.attributes := by
  have hplain : ∀ c ∈ [' '].intercalate item.2.attributes, (c ≠ ')' : Bool) = true := by
    intro c hc
    rw [decide_eq_true_eq]
    rcases mem_intercalate hc with rfl | ⟨w, hw, hc⟩
    · decide
    · exact ((item.2.atoms w hw).2 c hc).2
  have hline : listLine delimiter item = '(' :: ([' '].intercalate item.2.attributes ++
      ')' :: (' ' :: quote [delimiter] ++ ' ' :: quote item.1)) := by
    rw [listLine]
    simp only [List.append_assoc, List.cons_append]
  have hrun := splitRun_append (p := fun c => (c ≠ ')' : Bool)) hplain
    (b := ')' :: (' ' :: quote [delimiter] ++ ' ' :: quote item.1)) (by rintro c ⟨⟩; decide)
  rw [hline, attributesOf, hrun]
  dsimp only
  rw [if_neg (List.cons_ne_nil _ _), words_intercalate fun w hw =>
    ⟨(item.2.atoms w hw).1, fun c hc => ((item.2.atoms w hw).2 c hc).1⟩]

theorem isBlockedFolder_attributes {name other : Text} {attributes : List Text} (h : isBlockedFolder name [] = false)
    (hother : isBlockedFolder other attributes = false) : isBlockedFolder name attributes = false := by
  rw [isBlockedFolder, Bool.or_eq_false_iff] at h hother ⊢
  exact ⟨h.1, hother.2⟩

theorem send_unbroken {wire : Wire} {c : Command} (h : (arguments c).any broken = false) (answer : Answer) (s : Session) :
    send wire answer c s =
      match answer with
      | .raised text done => (.raised text, if done then (perform wire.delimiter s c).getD s else s)
      | .no lines => (.no lines, s)
      | .ok =>
        match perform wire.delimiter s c with
        | some s' => (.ok (linesOf wire.delimiter s c), s')
        | none => (.no wire.refused, s) := by
  unfold send
  rw [if_neg (by rw [h]; exact Bool.false_ne_true)]

theorem list_arguments {call : Call} (h : call.Unbroken) : (arguments (.list call.folder)).any broken = false := by
  simp [arguments, h.2.1]

/-- LIST finds what a folder that is an atom denotes. -/
theorem list_atom {folder : Text} (h : folder.all atomChar = true) {s : Session} {b : Mailbox}
    (hb : Dict.get? s.mailboxes (canonical folder) = some b) (delimiter : Char) :
    ∃ items, list? delimiter s folder = some items ∧ (canonical folder, b) ∈ items := by
  refine ⟨_, by rw [list?, quoted_atom h]; rfl, List.mem_filter.mpr ⟨Dict.mem_of_get? hb, ?_⟩⟩
  rw [Bool.or_eq_true, Bool.and_eq_true, beq_iff_eq, beq_iff_eq]
  rw [canonical]
  split
  · rename_i hinbox
    exact .inr ⟨rfl, hinbox⟩
  · exact .inl ((listed_atom h folder).mpr rfl)

/-- An argument that is no quoted string is read as it is. -/
theorem mailboxName_plain {s name : Text} (hplain : s.head? ≠ some '"') (h : mailboxName s = some name) :
    s.all atomChar = true ∧ name = canonical s := by
  obtain ⟨t, ht, rfl⟩ := Option.map_eq_some_iff.mp h
  unfold astring at ht
  split at ht
  · exact absurd rfl hplain
  · split at ht
    · rename_i hatom
      cases ht
      exact ⟨hatom.2, rfl⟩
    · cases ht

theorem isBlockedFolder_canonical {s : Text} (h : isBlockedFolder s [] = false) : isBlockedFolder (canonical s) [] = false := by
  rw [canonical]
  split
  · decide
  · exact h

/-- Where the folder is no quoted string and LIST is answered, what is accepted is not blocked. -/
theorem accepts_clear {call : Call} (h : call.Unbroken) (hplain : call.folder.head? ≠ some '"')
    (hlist : call.answers.list = .ok) (haccepts : call.accepts = true) : call.Unblocked := by
  intro name hname
  obtain ⟨hatom, rfl⟩ := mailboxName_plain hplain hname
  rw [Call.accepts, Bool.and_eq_true, Bool.not_eq_true', send_unbroken (list_arguments h), hlist] at haccepts
  obtain ⟨hfolder, hattributes⟩ := haccepts
  refine ⟨isBlockedFolder_canonical hfolder, fun b hb => ?_⟩
  obtain ⟨items, hitems, hmem⟩ := list_atom hatom (s := call.start) hb call.wire.delimiter
  have hperform : perform call.wire.delimiter call.start (.list call.folder) = some call.start := by
    rw [perform, hitems]
    rfl
  rw [hperform] at hattributes
  dsimp only at hattributes
  rw [Bool.not_eq_true', linesOf, hitems, Option.getD_some, blockedByAttributes, List.any_map, List.any_eq_false] at hattributes
  have hline := hattributes _ hmem
  rw [Function.comp_apply, attributesOf_line] at hline
  exact isBlockedFolder_attributes (isBlockedFolder_canonical hfolder) (Bool.not_eq_true _ ▸ hline)

/-- A folder in quotes is refused by LIST. -/
theorem list_quoted {folder : Text} (h : folder.head? = some '"') (s : Session) (delimiter : Char) :
    list? delimiter s folder = none := by
  cases folder with
  | nil => cases h
  | cons c rest =>
    cases h
    have hnone : quoted ('"' :: (rest ++ ['"'])) = none := by
      cases rest with
      | nil => rfl
      | cons d rest => rfl
    rw [list?, List.cons_append, hnone]
    rfl

/-- A folder that LIST does not answer is accepted by its name alone. -/
theorem accepts_unanswered {call : Call} (h : call.Unbroken) (hfolder : isBlockedFolder call.folder [] = false)
    (hlist : call.answers.list ≠ .ok ∨ call.folder.head? = some '"')
    (hraised : ∀ text done, call.answers.list ≠ .raised text done) : call.accepts = true := by
  rw [Call.accepts, hfolder, send_unbroken (list_arguments h)]
  cases hanswer : call.answers.list with
  | raised text done => exact absurd hanswer (hraised text done)
  | no lines => rfl
  | ok =>
    have hquoted := hlist.resolve_left (fun hne => hne hanswer)
    rw [perform, list_quoted hquoted]
    rfl

theorem unblocked_iff {call : Call} (h : call.Unbroken) :
    (call.accepts = true → call.Unblocked) ↔ call.FolderClear := by
  constructor
  · intro hallowed
    cases hfolder : isBlockedFolder call.folder [] with
    | true => exact .inl hfolder
    | false =>
      by_cases hraised : ∃ text done, call.answers.list = .raised text done
      · exact .inr (.inl hraised)
      · by_cases hplain : call.folder.head? ≠ some '"' ∧ call.answers.list = .ok
        · exact .inr (.inr (.inl hplain))
        · refine .inr (.inr (.inr (hallowed (accepts_unanswered h hfolder ?_ ?_))))
          · by_cases hok : call.answers.list = .ok
            · exact .inr (not_not.mp fun hne => hplain ⟨hne, hok⟩)
            · exact .inl hok
          · exact fun text done heq => hraised ⟨text, done, heq⟩
  · rintro (hfolder | ⟨text, done, hraised⟩ | ⟨hplain, hlist⟩ | hclear) haccepts
    · rw [Call.accepts, hfolder] at haccepts
      cases haccepts
    · rw [Call.accepts, send_unbroken (list_arguments h), hraised] at haccepts
      rw [Bool.and_eq_true] at haccepts
      exact absurd haccepts.2 Bool.false_ne_true
    · exact accepts_clear h hplain hlist haccepts
    · exact hclear

/-! ## What the commands leave -/

/-- Every message of every mailbox is still in it. -/
def Kept (s s' : Session) : Prop :=
  ∀ name b, s.mailbox name = some b → ∃ b', s'.mailbox name = some b' ∧ b.uids ⊆ b'.uids

theorem kept_refl (s : Session) : Kept s s := fun _ b hb => ⟨b, hb, List.Subset.refl _⟩

theorem kept_trans {s t u : Session} (h : Kept s t) (h' : Kept t u) : Kept s u := by
  intro name b hb
  obtain ⟨b', hb', hsub⟩ := h name b hb
  obtain ⟨b'', hb'', hsub'⟩ := h' name b' hb'
  exact ⟨b'', hb'', List.Subset.trans hsub hsub'⟩

theorem kept_put {s : Session} {name : Text} {b b' : Mailbox} (hb : s.mailbox name = some b) (hsub : b.uids ⊆ b'.uids) :
    Kept s (s.put name b') := by
  intro other c hc
  by_cases heq : name = other
  · subst heq
    cases hb.symm.trans hc
    exact ⟨b', Dict.get?_set_self _ _ _, hsub⟩
  · exact ⟨c, (Dict.get?_set_other _ _ heq).trans hc, List.Subset.refl _⟩

theorem append_uids (b : Mailbox) (ms : List Message) : b.uids ⊆ (b.append ms).uids := by
  intro uid huid
  rw [Mailbox.uids, messages_append, List.map_append]
  exact List.mem_append_left _ huid

theorem store_uids (b : Mailbox) (p : Nat → Bool) : (b.store p).uids = b.uids := uids_mark p 1 b.messages

theorem perform_keeps {delimiter : Char} {s s' : Session} {c : Command} (hc : c ≠ .expunge)
    (h : perform delimiter s c = some s') : Kept s s' := by
  cases c with
  | list pattern =>
    obtain ⟨-, -, rfl⟩ := Option.map_eq_some_iff.mp h
    exact kept_refl s
  | select mailbox =>
    simp only [perform, Option.bind_eq_bind, Option.bind_eq_some_iff, Option.some.injEq] at h
    obtain ⟨name, -, b, -, rfl⟩ := h
    exact kept_refl s
  | create mailbox =>
    simp only [perform, Option.bind_eq_bind, Option.bind_eq_some_iff] at h
    obtain ⟨raw, -, h⟩ := h
    split at h
    · cases h
    · rename_i hnew
      cases h
      intro name b hb
      refine ⟨b, (Dict.get?_set_other _ _ ?_).trans hb, List.Subset.refl _⟩
      rintro rfl
      exact hnew (.inr (by rw [hb]; rfl))
  | copy set mailbox =>
    simp only [perform, Option.bind_eq_bind, Option.bind_eq_some_iff] at h
    obtain ⟨source, -, b, -, name, -, target, htarget, places, -, h⟩ := h
    split at h
    · cases h
      exact kept_put htarget (append_uids target _)
    · cases h
  | store set =>
    simp only [perform, Option.bind_eq_bind, Option.bind_eq_some_iff] at h
    obtain ⟨source, -, b, hb, places, -, h⟩ := h
    split at h
    · cases h
      exact kept_put hb (store_uids b _ ▸ List.Subset.refl _)
    · cases h
  | expunge => exact absurd rfl hc

/-- No command but EXPUNGE takes a message away, however it is answered. -/
theorem send_keeps {wire : Wire} {c : Command} (hbroken : (arguments c).any broken = false) (hc : c ≠ .expunge)
    (answer : Answer) (s : Session) : Kept s (send wire answer c s).2 := by
  rw [send_unbroken hbroken]
  cases answer with
  | raised text done =>
    cases hperform : perform wire.delimiter s c with
    | none =>
      cases done
      all_goals exact kept_refl s
    | some s' =>
      cases done with
      | false => exact kept_refl s
      | true => exact perform_keeps hc hperform
  | no lines => exact kept_refl s
  | ok =>
    cases hperform : perform wire.delimiter s c with
    | none => exact kept_refl s
    | some s' => exact perform_keeps hc hperform

theorem uids_kept {s s' : Session} (h : Kept s s') (mailbox : Text) :
    (messagesOf mailbox s).map Message.uid ⊆ (messagesOf mailbox s').map Message.uid := by
  rw [messagesOf]
  cases hname : mailboxName mailbox with
  | none => exact List.nil_subset _
  | some name =>
    cases hb : s.mailbox name with
    | none =>
      rw [Option.bind_some, hb]
      exact List.nil_subset _
    | some b =>
      obtain ⟨b', hb', hsub⟩ := h name b hb
      rw [messagesOf, hname, Option.bind_some, Option.bind_some, hb, hb']
      exact hsub

/-- CREATE changes no mailbox that is there, and selects none. -/
theorem send_create {wire : Wire} {folder : Text} (hbroken : broken folder = false) (answer : Answer) (s : Session) :
    (send wire answer (.create folder) s).2.selected = s.selected ∧
      ∀ name b, s.mailbox name = some b → (send wire answer (.create folder) s).2.mailbox name = some b := by
  have hperform : ∀ s', perform wire.delimiter s (.create folder) = some s' →
      s'.selected = s.selected ∧ ∀ name b, s.mailbox name = some b → s'.mailbox name = some b := by
    intro s' h
    simp only [perform, Option.bind_eq_bind, Option.bind_eq_some_iff] at h
    obtain ⟨raw, -, h⟩ := h
    split at h
    · cases h
    · rename_i hnew
      cases h
      refine ⟨rfl, fun name b hb => (Dict.get?_set_other _ _ ?_).trans hb⟩
      rintro rfl
      exact hnew (.inr (by rw [hb]; rfl))
  have hsame : s.selected = s.selected ∧ ∀ name b, s.mailbox name = some b → s.mailbox name = some b :=
    ⟨rfl, fun _ _ hb => hb⟩
  rw [send_unbroken (by simp [arguments, hbroken])]
  cases answer with
  | raised text done =>
    cases hp : perform wire.delimiter s (.create folder) with
    | none =>
      cases done
      all_goals exact hsame
    | some s' =>
      cases done with
      | false => exact hsame
      | true => exact hperform s' hp
  | no lines => exact hsame
  | ok =>
    cases hp : perform wire.delimiter s (.create folder) with
    | none => exact hsame
    | some s' => exact hperform s' hp

theorem messagesOf_some {mailbox name : Text} {s : Session} {b : Mailbox} (hname : mailboxName mailbox = some name)
    (hb : s.mailbox name = some b) : messagesOf mailbox s = b.messages := by
  rw [messagesOf, hname, Option.bind_some, hb]
  rfl

/-! ## Where COPY is carried out -/

/-- The mailboxes of a call whose COPY is answered OK, and what the identifier is read as. -/
structure Copied (call : Call) where
  sourceName : Text
  source : Mailbox
  targetName : Text
  target : Mailbox
  set : List (Number × Number)
  source_named : mailboxName call.sourceFolder = some sourceName
  source_start : call.start.mailbox sourceName = some source
  source_opened : call.opened.mailbox sourceName = some source
  selected : call.opened.selected = some sourceName
  target_named : mailboxName call.folder = some targetName
  target_opened : call.opened.mailbox targetName = some target
  target_start : ∀ b, call.start.mailbox targetName = some b → b = target
  set_read : sequenceSet call.messageUid = some set
  set_inside : inside source.messages.length set = true

namespace Copied

variable {call : Call}

def copies (c : Copied call) : List Message := picked (covers c.source.messages.length c.set) 1 c.source.messages

/-- The session behind COPY. -/
def session (c : Copied call) : Session := call.opened.put c.targetName (c.target.append c.copies)

end Copied

theorem send_ok {wire : Wire} {c : Command} {answer : Answer} {s : Session} {lines : List Text}
    (hbroken : (arguments c).any broken = false) (h : (send wire answer c s).1 = .ok lines) :
    answer = .ok ∧ ∃ s', perform wire.delimiter s c = some s' ∧ (send wire answer c s).2 = s' := by
  rw [send_unbroken hbroken] at h ⊢
  cases answer with
  | raised text done => cases h
  | no lines => cases h
  | ok =>
    cases hp : perform wire.delimiter s c with
    | none =>
      rw [hp] at h
      cases h
    | some s' => exact ⟨rfl, s', rfl, rfl⟩

theorem copy_arguments {call : Call} (h : call.Unbroken) : (arguments (.copy call.messageUid call.folder)).any broken = false := by
  simp [arguments, h.1, h.2.1]

theorem select_arguments {call : Call} (h : call.Unbroken) : (arguments (.select call.sourceFolder)).any broken = false := by
  simp [arguments, h.2.2]

theorem store_arguments {call : Call} (h : call.Unbroken) : (arguments (.store call.messageUid)).any broken = false := by
  simp [arguments, h.1]

/-- SELECT changes no mailbox, and what it selects is the source, if it is there. -/
theorem select_cases {call : Call} (h : call.Unbroken)
    (hraised : ∀ text done, call.answers.select ≠ .raised text done) :
    (send call.wire call.answers.select (.select call.sourceFolder) call.start).2 = call.start ∨
      ∃ name b, mailboxName call.sourceFolder = some name ∧ call.start.mailbox name = some b ∧
        (send call.wire call.answers.select (.select call.sourceFolder) call.start).2 =
          { call.start with selected := some name } := by
  rw [send_unbroken (select_arguments h)]
  cases hanswer : call.answers.select with
  | raised text done => exact absurd hanswer (hraised text done)
  | no lines => exact .inl rfl
  | ok =>
    cases hp : perform call.wire.delimiter call.start (.select call.sourceFolder) with
    | none => exact .inl rfl
    | some s' =>
      simp only [perform, Option.bind_eq_bind, Option.bind_eq_some_iff, Option.some.injEq] at hp
      obtain ⟨name, hname, b, hb, rfl⟩ := hp
      exact .inr ⟨name, b, hname, hb, rfl⟩

theorem copied {call : Call} (h : call.Unbroken) (hcopies : call.Copies) :
    ∃ c : Copied call, call.answers.copy = .ok ∧
      (send call.wire call.answers.copy (.copy call.messageUid call.folder) call.opened).2 = c.session := by
  obtain ⟨-, -, -, hraised, lines, hok⟩ := hcopies
  obtain ⟨hanswer, s', hp, hs'⟩ := send_ok (copy_arguments h) hok
  simp only [perform, Option.bind_eq_bind, Option.bind_eq_some_iff] at hp
  obtain ⟨sourceName, hselected, source, hsource, targetName, hname, target, htarget, set, hset, hp⟩ := hp
  split at hp
  · rename_i hinside
    cases hp
    obtain ⟨hsel, hkeep⟩ := @send_create call.wire _ h.2.1 call.answers.create
      (send call.wire call.answers.select (.select call.sourceFolder) call.start).2
    change call.opened.selected = _ at hsel
    change ∀ name b, _ → call.opened.mailbox name = some b at hkeep
    rcases select_cases h hraised with hstart | ⟨name, b, hname', hb, hstart⟩
    · rw [hstart] at hsel
      exact absurd (hselected.symm.trans hsel) nofun
    · rw [hstart] at hsel hkeep
      have heq : sourceName = name := Option.some_inj.mp (hselected.symm.trans hsel)
      subst heq
      cases hsource.symm.trans (hkeep sourceName b hb)
      refine ⟨⟨sourceName, source, targetName, target, set, hname', hb, hsource, hselected, hname, htarget, ?_, hset,
        hinside⟩, hanswer, hs'⟩
      exact fun c hc => Option.some_inj.mp ((hkeep targetName c hc).symm.trans htarget)
  · cases hp

/-- LIST changes nothing. -/
theorem send_list {call : Call} (h : call.Unbroken) :
    (send call.wire call.answers.list (.list call.folder) call.start).2 = call.start := by
  have hperform : ∀ s', perform call.wire.delimiter call.start (.list call.folder) = some s' → s' = call.start := by
    intro s' hp
    obtain ⟨-, -, rfl⟩ := Option.map_eq_some_iff.mp hp
    rfl
  rw [send_unbroken (list_arguments h)]
  cases call.answers.list with
  | raised text done =>
    cases hp : perform call.wire.delimiter call.start (.list call.folder) with
    | none =>
      cases done
      all_goals rfl
    | some s' =>
      cases done with
      | false => rfl
      | true => exact hperform s' hp
  | no lines => rfl
  | ok =>
    cases hp : perform call.wire.delimiter call.start (.list call.folder) with
    | none => rfl
    | some s' => exact hperform s' hp

theorem send_raised {wire : Wire} {c : Command} {s : Session} (hbroken : (arguments c).any broken = false)
    (answer : Answer) : (∃ text done, answer = .raised text done) ↔ ∃ text, (send wire answer c s).1 = .raised text := by
  rw [send_unbroken hbroken]
  cases answer with
  | raised text done => exact iff_of_true ⟨text, done, rfl⟩ ⟨text, rfl⟩
  | no lines => exact iff_of_false nofun nofun
  | ok =>
    cases perform wire.delimiter s c with
    | none => exact iff_of_false nofun nofun
    | some s' => exact iff_of_false nofun nofun

/-- From SELECT on: an error that has taken no message away, or COPY is carried out. -/
theorem moved_cases {call : Call} (h : call.Unbroken) :
    ((∃ text done, call.answers.select = .raised text done) ∨
        (∀ lines, (send call.wire call.answers.copy (.copy call.messageUid call.folder) call.opened).1 ≠ .ok lines)) ∧
      (∃ text, (call.moved call.start).1 = .error text ∧ Kept call.start (call.moved call.start).2) ∨
    ((∀ text done, call.answers.select ≠ .raised text done) ∧
        ∃ lines, (send call.wire call.answers.copy (.copy call.messageUid call.folder) call.opened).1 = .ok lines) ∧
      call.moved call.start =
        call.deleted (send call.wire call.answers.copy (.copy call.messageUid call.folder) call.opened).2 := by
  have hselect := @send_keeps call.wire _ (select_arguments h) nofun call.answers.select call.start
  have hcreate := @send_keeps call.wire (.create call.folder) (by simp [arguments, h.2.1]) nofun
    call.answers.create (send call.wire call.answers.select (.select call.sourceFolder) call.start).2
  have hcopy := @send_keeps call.wire _ (copy_arguments h) nofun call.answers.copy call.opened
  have hall := kept_trans (kept_trans hselect hcreate) hcopy
  have hraised := @send_raised call.wire _ call.start (select_arguments h) call.answers.select
  have hmoved : ∀ s1, (∃ lines, send call.wire call.answers.select (.select call.sourceFolder) call.start = (.ok lines, s1)) ∨
      (∃ lines, send call.wire call.answers.select (.select call.sourceFolder) call.start = (.no lines, s1)) →
      call.moved call.start =
        match send call.wire call.answers.copy (.copy call.messageUid call.folder) call.opened with
        | (.raised text, s) => (.error text, s)
        | (.no lines, s) => (.error ("COPY failed: " ++ lines), s)
        | (.ok _, s) => call.deleted s := by
    rintro s1 (⟨lines, hs1⟩ | ⟨lines, hs1⟩)
    all_goals rw [Call.moved, Call.opened, hs1]
  rcases hs1 : send call.wire call.answers.select (.select call.sourceFolder) call.start with ⟨resp, s1⟩
  rw [hs1] at hraised
  cases resp with
  | raised text =>
    refine .inl ⟨.inl (hraised.mpr ⟨text, rfl⟩), text, ?_⟩
    rw [Call.moved, hs1]
    rw [hs1] at hselect
    exact ⟨rfl, hselect⟩
  | _ =>
    have hgo := hmoved s1 (by first | exact .inl ⟨_, hs1⟩ | exact .inr ⟨_, hs1⟩)
    have hno : ∀ text done, call.answers.select ≠ .raised text done := by
      intro text done heq
      obtain ⟨text', h'⟩ := hraised.mp ⟨text, done, heq⟩
      cases h'
    rw [hgo]
    rcases hs2 : send call.wire call.answers.copy (.copy call.messageUid call.folder) call.opened with ⟨resp2, s2⟩
    rw [hs2] at hall
    cases resp2 with
    | raised text => exact .inl ⟨.inr nofun, text, rfl, hall⟩
    | no lines => exact .inl ⟨.inr nofun, _, rfl, hall⟩
    | ok lines => exact .inr ⟨⟨hno, lines, rfl⟩, rfl⟩

/-- The tool as a whole. -/
theorem moveEmail_cases {call : Call} (h : call.Unbroken) :
    (¬ call.Copies ∧ ∃ text, call.moveEmail.1 = .error text ∧ Kept call.start call.moveEmail.2) ∨
      call.Copies ∧ call.moveEmail =
        call.deleted (send call.wire call.answers.copy (.copy call.messageUid call.folder) call.opened).2 := by
  have hlist := send_list h
  rw [Call.moveEmail]
  by_cases hconfigured : call.answers.configured = true
  · rw [if_neg (by simp [hconfigured])]
    by_cases hfolder : isBlockedFolder call.folder [] = true
    · rw [if_pos hfolder]
      refine .inl ⟨fun hcopies => ?_, _, rfl, kept_refl _⟩
      have haccepts := hcopies.2.2.1
      rw [Call.accepts, hfolder] at haccepts
      cases haccepts
    · rw [if_neg hfolder]
      cases hconnect : call.answers.connect with
      | some text => exact .inl ⟨fun hcopies => (nomatch hconnect.symm.trans hcopies.2.1), text, rfl, kept_refl _⟩
      | none =>
        have hrest : ∀ resp : Resp, (∀ text, resp ≠ .raised text) →
            send call.wire call.answers.list (.list call.folder) call.start = (resp, call.start) →
            (¬ call.Copies ∧ ∃ text, (if blockedByAttributes call.folder resp then
                (Report.error (notPermitted call.folder), call.start) else call.moved call.start).1 = .error text ∧
              Kept call.start (if blockedByAttributes call.folder resp then
                (Report.error (notPermitted call.folder), call.start) else call.moved call.start).2) ∨
            call.Copies ∧ (if blockedByAttributes call.folder resp then
                (Report.error (notPermitted call.folder), call.start) else call.moved call.start) =
              call.deleted (send call.wire call.answers.copy (.copy call.messageUid call.folder) call.opened).2 := by
          intro resp hresp hsend
          have haccepts : call.accepts = !blockedByAttributes call.folder resp := by
            rw [Call.accepts, hsend, eq_false_of_ne_true hfolder]
            cases resp with
            | raised text => exact absurd rfl (hresp text)
            | ok lines => rfl
            | no lines => rfl
          by_cases hblocked : blockedByAttributes call.folder resp = true
          · rw [if_pos hblocked]
            refine .inl ⟨fun hcopies => ?_, _, rfl, kept_refl _⟩
            have := hcopies.2.2.1
            rw [haccepts, hblocked] at this
            cases this
          · rw [if_neg hblocked]
            have hyes : call.accepts = true := by
              rw [haccepts, eq_false_of_ne_true hblocked]
              rfl
            rcases moved_cases h with ⟨hno, herror⟩ | ⟨⟨hno, hok⟩, heq⟩
            · refine .inl ⟨fun hcopies => ?_, herror⟩
              obtain ⟨-, -, -, hsel, lines, hok⟩ := hcopies
              rcases hno with ⟨text, done, heq⟩ | hno
              · exact hsel text done heq
              · exact hno lines hok
            · exact .inr ⟨⟨hconfigured, hconnect, hyes, hno, hok⟩, heq⟩
        rcases hsend : send call.wire call.answers.list (.list call.folder) call.start with ⟨resp, s⟩
        rw [hsend] at hlist
        cases hlist
        cases resp with
        | raised text =>
          refine .inl ⟨fun hcopies => ?_, text, rfl, kept_refl _⟩
          have haccepts := hcopies.2.2.1
          rw [Call.accepts, hsend, Bool.and_eq_true] at haccepts
          exact absurd haccepts.2 Bool.false_ne_true
        | ok lines => exact hrest _ nofun hsend
        | no lines => exact hrest _ nofun hsend
  · rw [if_pos (by simpa using hconfigured)]
    exact .inl ⟨fun hcopies => hconfigured hcopies.1, _, rfl, kept_refl _⟩

/-! ## From STORE on -/

namespace Copied

variable {call : Call} (c : Copied call)

theorem sourceMessages_eq : call.sourceMessages = c.source.messages := messagesOf_some c.source_named c.source_start

theorem named_eq (size : Nat) : call.named size = covers size c.set := by
  rw [Call.named, c.set_read]
  rfl

theorem namedMessages_eq : call.namedMessages = c.copies := by
  rw [Call.namedMessages, c.sourceMessages_eq, c.named_eq]
  rfl

theorem same_iff : mailboxName call.folder = mailboxName call.sourceFolder ↔ c.targetName = c.sourceName := by
  rw [c.target_named, c.source_named, Option.some_inj]

theorem stored_uids : call.stored.map Message.uid = c.source.uids := by
  rw [Call.stored, c.sourceMessages_eq]
  cases call.answers.store with
  | ok => exact uids_mark _ _ _
  | no lines => rfl
  | raised text done => rfl

theorem distinct_stored (c : Copied call) : (call.stored.map Message.uid).Nodup := c.stored_uids ▸ c.source.distinct

/-- The source behind COPY: what it was, and what was copied into it. -/
theorem source_session : ∃ b extra, c.session.mailbox c.sourceName = some b ∧ b.messages = c.source.messages ++ extra ∧
    (∀ x ∈ extra, x.uid ∉ c.source.uids) ∧
    extra.length = (if c.targetName = c.sourceName then c.copies.length else 0) := by
  by_cases hsame : c.targetName = c.sourceName
  · have htarget : c.target = c.source := by
      have hopened := c.target_opened
      rw [hsame, c.source_opened] at hopened
      exact (Option.some_inj.mp hopened).symm
    refine ⟨c.target.append c.copies, renumber c.source.next c.copies, ?_, ?_, ?_, ?_⟩
    · exact hsame ▸ Dict.get?_set_self _ _ _
    · rw [htarget]
      rfl
    · exact fun x hx => append_new c.source c.copies hx
    · rw [length_renumber, if_pos hsame]
  · refine ⟨c.source, [], (Dict.get?_set_other _ _ hsame).trans c.source_opened, (List.append_nil _).symm, nofun, ?_⟩
    rw [if_neg hsame]
    rfl

theorem target_session : c.session.mailbox c.targetName = some (c.target.append c.copies) := Dict.get?_set_self _ _ _

end Copied

/-- The session behind STORE, where that did not raise. -/
structure Stored {call : Call} (c : Copied call) (s : Session) where
  source : Mailbox
  extra : List Message
  selected : s.selected = some c.sourceName
  source_found : s.mailbox c.sourceName = some source
  messages : source.messages = call.stored ++ extra
  extra_new : ∀ x ∈ extra, x.uid ∉ c.source.uids
  extra_nil : c.targetName ≠ c.sourceName → extra = []
  target_found : c.targetName ≠ c.sourceName → s.mailbox c.targetName = some (c.target.append c.copies)

theorem stored_session {call : Call} (h : call.Unbroken) (c : Copied call)
    (hraised : ∀ text done, call.answers.store ≠ .raised text done) :
    Nonempty (Stored c (send call.wire call.answers.store (.store call.messageUid) c.session).2) := by
  obtain ⟨b, extra, hb, hmessages, hnew, hlen⟩ := c.source_session
  have hselected : c.session.selected = some c.sourceName := c.selected
  have hnil : c.targetName ≠ c.sourceName → extra = [] := by
    intro hne
    rw [if_neg hne] at hlen
    exact List.length_eq_zero_iff.mp hlen
  rw [send_unbroken (store_arguments h)]
  cases hstore : call.answers.store with
  | raised text done => exact absurd hstore (hraised text done)
  | no lines =>
    have hstored : call.stored = c.source.messages := by
      rw [Call.stored, hstore]
      exact c.sourceMessages_eq
    exact ⟨⟨b, extra, hselected, hb, hstored ▸ hmessages, hnew, hnil, fun _ => c.target_session⟩⟩
  | ok =>
    have hsize : b.messages.length = c.source.messages.length + extra.length := by
      rw [hmessages, List.length_append]
    have hinside : inside b.messages.length c.set = true :=
      inside_mono (by rw [hsize]; exact Nat.le_add_right _ _) c.set_inside
    have hperform : perform call.wire.delimiter c.session (.store call.messageUid) =
        some (c.session.put c.sourceName (b.store (covers b.messages.length c.set))) := by
      simp only [perform, Option.bind_eq_bind, hselected, Option.bind_some, hb, c.set_read, if_pos hinside]
    have hstored : call.stored = mark (covers b.messages.length c.set) 1 c.source.messages := by
      rw [Call.stored, hstore]
      dsimp only
      rw [c.named_eq, c.sourceMessages_eq, c.namedMessages_eq, hsize, hlen]
      simp only [c.same_iff]
    rw [hperform]
    refine ⟨⟨b.store (covers b.messages.length c.set), mark (covers b.messages.length c.set) (1 + c.source.messages.length) extra,
      hselected, Dict.get?_set_self _ _ _, ?_, ?_, ?_, ?_⟩⟩
    · rw [messages_store, hstored, ← mark_append, ← hmessages]
    · intro x hx huid
      have hmem : x.uid ∈ extra.map Message.uid := uids_mark _ _ extra ▸ List.mem_map_of_mem hx
      obtain ⟨y, hy, hyx⟩ := List.mem_map.mp hmem
      exact hnew y hy (hyx ▸ huid)
    · intro hne
      rw [hnil hne]
      rfl
    · exact fun hne => (Dict.get?_set_other _ _ (Ne.symm hne)).trans c.target_session

/-! ## EXPUNGE -/

namespace Stored

variable {call : Call} {c : Copied call} {s : Session} (st : Stored c s)

/-- The session behind EXPUNGE. -/
def expunged : Session := s.put c.sourceName st.source.expunge

theorem perform_expunge (delimiter : Char) : perform delimiter s .expunge = some st.expunged := by
  simp only [perform, Option.bind_eq_bind, st.selected, Option.bind_some, st.source_found]
  rfl

theorem source_expunged : messagesOf call.sourceFolder st.expunged =
    call.stored.filter (fun m => !m.deleted) ++ st.extra.filter fun m => !m.deleted := by
  have hsource : st.expunged.mailbox c.sourceName = some st.source.expunge := Dict.get?_set_self _ _ _
  rw [messagesOf_some c.source_named hsource, messages_expunge, st.messages, List.filter_append]

/-- EXPUNGE takes nothing out exactly if nothing was marked. -/
theorem untouched_iff : call.Untouched st.expunged ↔ ∀ x ∈ call.stored, x.deleted = false := by
  have huids : ∀ uid, uid ∈ call.stored.map Message.uid ↔ uid ∈ c.source.uids := fun uid => by rw [c.stored_uids]
  rw [Call.Untouched, c.sourceMessages_eq, st.source_expunged, List.map_append]
  constructor
  · intro hall x hx
    obtain ⟨m, hm, hmx⟩ := List.mem_map.mp ((huids x.uid).mp (List.mem_map_of_mem hx))
    rcases List.mem_append.mp (hall m hm) with h | h
    · obtain ⟨y, hy, hym⟩ := List.mem_map.mp h
      obtain ⟨hystored, hydel⟩ := List.mem_filter.mp hy
      have hyx := List.inj_on_of_nodup_map c.distinct_stored hystored hx (hym.trans hmx)
      simpa [hyx] using hydel
    · obtain ⟨y, hy, hym⟩ := List.mem_map.mp h
      have hmem : y.uid ∈ c.source.uids := hym ▸ List.mem_map_of_mem hm
      exact absurd hmem (st.extra_new y (List.mem_of_mem_filter hy))
  · intro hall m hm
    obtain ⟨x, hx, hxm⟩ := List.mem_map.mp ((huids m.uid).mpr (List.mem_map_of_mem hm))
    refine List.mem_append_left _ (hxm ▸ List.mem_map_of_mem (List.mem_filter.mpr ⟨hx, ?_⟩))
    rw [hall x hx]
    rfl

/-- EXPUNGE takes out what is named exactly if that was what was marked, and the target is
    another folder. -/
theorem taken_iff : call.Taken st.expunged ↔
    mailboxName call.folder ≠ mailboxName call.sourceFolder ∧ ∃ m, call.namedMessages = [m] ∧
      ∀ x ∈ call.stored, x.deleted = decide (x.uid = m.uid) := by
  have hsource : call.sourceMessages.map Message.uid = call.stored.map Message.uid := by
    rw [c.sourceMessages_eq, c.stored_uids]
    rfl
  have hfilter : ∀ m : Message, (call.stored.map Message.uid).filter (· ≠ m.uid) =
      (call.stored.filter fun x => x.uid ≠ m.uid).map Message.uid := by
    intro m
    rw [List.filter_map]
    rfl
  have hbool : ∀ x m : Message, ((!x.deleted) = decide (x.uid ≠ m.uid)) ↔ x.deleted = decide (x.uid = m.uid) := by
    intro x m
    rw [decide_not]
    cases x.deleted <;> cases decide (x.uid = m.uid) <;> decide
  rw [Call.Taken, Ne, c.same_iff]
  by_cases hsame : c.targetName = c.sourceName
  · -- The copy is in the source, where no message may be new.
    refine iff_of_false ?_ fun h => h.1 hsame
    rintro ⟨m, -, huids, y, hy, -, hynew⟩
    have hfolder : messagesOf call.folder st.expunged = messagesOf call.sourceFolder st.expunged := by
      rw [messagesOf, messagesOf, c.target_named, c.source_named, hsame]
    have hstart : messagesOf call.folder call.start = call.sourceMessages := by
      rw [Call.sourceMessages, messagesOf, messagesOf, c.target_named, c.source_named, hsame]
    have hmem : y.uid ∈ (messagesOf call.sourceFolder st.expunged).map Message.uid :=
      List.mem_map_of_mem (hfolder ▸ hy)
    rw [huids] at hmem
    exact hynew (hstart ▸ List.mem_of_mem_filter hmem)
  · have huids : ∀ m : Message, (messagesOf call.sourceFolder st.expunged).map Message.uid =
        (call.sourceMessages.map Message.uid).filter (· ≠ m.uid) ↔ ∀ x ∈ call.stored, x.deleted = decide (x.uid = m.uid) := by
      intro m
      rw [st.source_expunged, st.extra_nil hsame, List.filter_nil, List.append_nil, hsource, hfilter,
        filter_uids_iff c.distinct_stored]
      exact forall₂_congr fun x _ => hbool x m
    constructor
    · rintro ⟨m, hnamed, h, -⟩
      exact ⟨hsame, m, hnamed, (huids m).mp h⟩
    · rintro ⟨-, m, hnamed, h⟩
      have htarget : messagesOf call.folder st.expunged = (c.target.append c.copies).messages :=
        messagesOf_some c.target_named ((Dict.get?_set_other _ _ (Ne.symm hsame)).trans (st.target_found hsame))
      have hcopies : m ∈ c.copies := by
        rw [← c.namedMessages_eq, hnamed]
        exact List.mem_singleton_self m
      obtain ⟨y, hy, hemail⟩ := renumber_email hcopies c.target.next
      refine ⟨m, hnamed, (huids m).mpr h, y, htarget ▸ List.mem_append_right _ hy, hemail, fun hold => ?_⟩
      refine append_new c.target c.copies hy ?_
      cases hstart : call.start.mailbox c.targetName with
      | none =>
        rw [messagesOf, c.target_named, Option.bind_some, hstart] at hold
        cases hold
      | some b =>
        rw [messagesOf_some c.target_named hstart, c.target_start b hstart] at hold
        exact hold

/-- Without EXPUNGE nothing is taken out. -/
theorem not_taken (st : Stored c s) : ¬ call.Taken s := by
  rintro ⟨m, hnamed, huids, -⟩
  have hm : m ∈ call.sourceMessages := picked_subset (p := call.named call.sourceMessages.length) (n := 1) (by
    rw [← Call.namedMessages, hnamed]
    exact List.mem_singleton_self m)
  have hstored : m.uid ∈ call.stored.map Message.uid := by
    rw [c.stored_uids, Mailbox.uids, ← c.sourceMessages_eq]
    exact List.mem_map_of_mem hm
  have hmem : m.uid ∈ (messagesOf call.sourceFolder s).map Message.uid := by
    rw [messagesOf_some c.source_named st.source_found, st.messages, List.map_append]
    exact List.mem_append_left _ hstored
  rw [huids, List.mem_filter] at hmem
  exact absurd rfl (of_decide_eq_true hmem.2)

end Stored

/-! ## move_email -/

/-- EXPUNGE, in the session behind STORE. -/
theorem send_expunge {call : Call} {c : Copied call} {s : Session} (st : Stored c s) :
    send call.wire call.answers.expunge .expunge s =
      match call.answers.expunge with
      | .raised text done => (.raised text, if done then st.expunged else s)
      | .no lines => (.no lines, s)
      | .ok => (.ok [], st.expunged) := by
  rw [send_unbroken rfl, st.perform_expunge]
  rfl

theorem deleted_raised {call : Call} (h : call.Unbroken) (c : Copied call) {text : String} {done : Bool}
    (hstore : call.answers.store = .raised text done) :
    (∃ text, (call.deleted c.session).1 = .error text) ∧ call.Untouched (call.deleted c.session).2 := by
  obtain ⟨text', hraised⟩ := (@send_raised call.wire _ c.session (store_arguments h) call.answers.store).mp
    ⟨text, done, hstore⟩
  have hkept := @send_keeps call.wire _ (store_arguments h) nofun call.answers.store c.session
  rcases hsend : send call.wire call.answers.store (.store call.messageUid) c.session with ⟨resp, s⟩
  rw [hsend] at hraised hkept
  subst hraised
  rw [Call.deleted, hsend]
  refine ⟨⟨text', rfl⟩, fun m hm => ?_⟩
  obtain ⟨b, extra, hb, hmessages, -, -⟩ := c.source_session
  obtain ⟨b', hb', hsub⟩ := hkept c.sourceName b hb
  rw [messagesOf_some c.source_named hb']
  refine hsub ?_
  rw [Mailbox.uids, hmessages, List.map_append]
  rw [c.sourceMessages_eq] at hm
  exact List.mem_append_left _ (List.mem_map_of_mem hm)

/-- Where STORE did not raise, EXPUNGE is next. -/
theorem deleted_stored {call : Call} (h : call.Unbroken) (c : Copied call)
    (hraised : ∀ text done, call.answers.store ≠ .raised text done) :
    ∃ s, ∃ _ : Stored c s, call.deleted c.session =
      match send call.wire call.answers.expunge .expunge s with
      | (.raised text, s) => (.error text, s)
      | (_, s) => (.success ("Moved to " ++ String.ofList call.folder), s) := by
  obtain ⟨st⟩ := stored_session h c hraised
  refine ⟨_, st, ?_⟩
  have hno := (@send_raised call.wire _ c.session (store_arguments h) call.answers.store).not.mp
    (by rintro ⟨text, done, heq⟩; exact hraised text done heq)
  rw [Call.deleted]
  rcases hsend : send call.wire call.answers.store (.store call.messageUid) c.session with ⟨resp, s⟩
  rw [hsend] at hno
  cases resp with
  | raised text => exact absurd ⟨text, rfl⟩ hno
  | no lines => rfl
  | ok lines => rfl

/-- Before EXPUNGE no message is out of the source. -/
theorem Stored.untouched {call : Call} {c : Copied call} {s : Session} (st : Stored c s) : call.Untouched s := by
  intro m hm
  rw [messagesOf_some c.source_named st.source_found, st.messages, List.map_append, c.stored_uids]
  rw [c.sourceMessages_eq] at hm
  exact List.mem_append_left _ (List.mem_map_of_mem hm)

/-- How STORE and EXPUNGE are answered decides what becomes of a message that was copied. -/
theorem clean_iff {call : Call} (h : call.Unbroken) (c : Copied call) :
    ((∀ message, (call.deleted c.session).1 = .success message → call.Taken (call.deleted c.session).2) ∧
      ∀ text, (call.deleted c.session).1 = .error text → call.Untouched (call.deleted c.session).2) ↔ call.Clean := by
  by_cases hraised : ∃ text done, call.answers.store = .raised text done
  · obtain ⟨text, done, hstore⟩ := hraised
    obtain ⟨⟨text', herror⟩, hkept⟩ := deleted_raised h c hstore
    rw [Call.Clean, hstore, herror]
    exact iff_of_true ⟨nofun, fun _ _ => hkept⟩ trivial
  · have hno : ∀ text done, call.answers.store ≠ .raised text done := fun text done heq => hraised ⟨text, done, heq⟩
    obtain ⟨s, st, hdeleted⟩ := deleted_stored h c hno
    have hclean : call.Clean ↔
        match call.answers.expunge with
        | .raised _ false => True
        | .raised _ true => ∀ x ∈ call.stored, x.deleted = false
        | .no _ => False
        | .ok => mailboxName call.folder ≠ mailboxName call.sourceFolder ∧ ∃ m, call.namedMessages = [m] ∧
            ∀ x ∈ call.stored, x.deleted = decide (x.uid = m.uid) := by
      rw [Call.Clean]
      cases hstore : call.answers.store with
      | raised text done => exact absurd hstore (hno text done)
      | _ =>
        cases call.answers.expunge with
        | raised text done => cases done <;> exact Iff.rfl
        | _ => exact Iff.rfl
    rw [hdeleted, hclean, send_expunge st]
    cases call.answers.expunge with
    | raised text done =>
      cases done with
      | false => exact iff_of_true ⟨nofun, fun _ _ => st.untouched⟩ trivial
      | true =>
        refine Iff.trans ⟨fun hboth => hboth.2 text rfl, fun huntouched => ⟨nofun, fun _ _ => huntouched⟩⟩ st.untouched_iff
    | no lines => exact iff_of_false (fun hboth => st.not_taken (hboth.1 _ rfl)) id
    | ok => exact Iff.trans ⟨fun hboth => hboth.1 _ rfl, fun htaken => ⟨fun _ _ => htaken, nofun⟩⟩ st.taken_iff

/-- Of every call whose arguments do not end a line: it does what it is to do exactly if the
    folder is clear and, where COPY is carried out, EXPUNGE takes out what is named. -/
theorem moves_iff {call : Call} (h : call.Unbroken) :
    call.Moves ↔ call.FolderClear ∧ (call.Copies → call.Clean) := by
  rw [← unblocked_iff h]
  rcases moveEmail_cases h with ⟨hno, text, htext, hkept⟩ | ⟨hcopies, hrun⟩
  · constructor
    · exact fun hmoves => ⟨hmoves.allowed, fun hcopies => absurd hcopies hno⟩
    · rintro ⟨hallowed, -⟩
      refine ⟨fun message hsuccess => ?_, fun _ _ => ?_, hallowed⟩
      · rw [htext] at hsuccess
        cases hsuccess
      · exact fun m hm => uids_kept hkept call.sourceFolder (List.mem_map_of_mem hm)
  · obtain ⟨c, -, hsession⟩ := copied h hcopies
    rw [hsession] at hrun
    constructor
    · intro hmoves
      refine ⟨hmoves.allowed, fun _ => (clean_iff h c).mp ⟨?_, ?_⟩⟩
      · rw [← hrun]
        exact hmoves.success
      · rw [← hrun]
        exact hmoves.error
    · rintro ⟨hallowed, hclean⟩
      obtain ⟨hsuccess, herror⟩ := (clean_iff h c).mpr (hclean hcopies)
      rw [← hrun] at hsuccess herror
      exact ⟨hsuccess, herror, hallowed⟩

/-! ## A mailbox with a message that another client marked -/

def inboxOf (messages : List Message) (next : Nat) (below : ∀ m ∈ messages, m.uid < next)
    (distinct : (messages.map Message.uid).Nodup) : Mailbox := ⟨[], messages, next, below, distinct, atoms_nil⟩

def answered : Answers := ⟨true, none, .ok, .ok, .no "exists", .ok, .ok, .ok⟩

/-- The first of two messages is moved; the second was marked by another client, or not. -/
def moveFirst (marked : Bool) : Call where
  messageUid := "1".toList
  folder := "Archive".toList
  sourceFolder := "INBOX".toList
  mailboxes :=
    [("INBOX".toList, inboxOf [⟨1, 11, false⟩, ⟨2, 12, marked⟩] 3 (by cases marked <;> decide) (by cases marked <;> decide)),
      ("Archive".toList, emptyMailbox)]
  wire := ⟨'/', fun _ s => (.raised "", s), "BAD"⟩
  answers := answered

/-- Where it was not marked, the first moves as it should. -/
theorem the_first_message_moves : (moveFirst false).Moves :=
  (moves_iff ⟨by decide, by decide, by decide⟩).mpr
    ⟨.inr (.inr (.inl ⟨by decide, rfl⟩)), fun _ => ⟨by decide, ⟨1, 11, false⟩, by decide, by decide⟩⟩

/-- The move is a success, and the source is empty. -/
theorem another_message_is_expunged :
    (moveFirst true).moveEmail.1 = .success "Moved to Archive" ∧
      (moveFirst true).sourceMessages.map Message.uid = [1, 2] ∧
      (messagesOf (moveFirst true).sourceFolder (moveFirst true).moveEmail.2).map Message.uid = [] ∧
      ¬ (moveFirst true).Moves := by
  have hsuccess : (moveFirst true).moveEmail.1 = .success "Moved to Archive" := by decide
  have hbefore : (moveFirst true).sourceMessages.map Message.uid = [1, 2] := by decide
  have hafter : (messagesOf (moveFirst true).sourceFolder (moveFirst true).moveEmail.2).map Message.uid = [] := by
    decide
  refine ⟨hsuccess, hbefore, hafter, fun hmoves => ?_⟩
  obtain ⟨m, -, huids, -⟩ := hmoves.success _ hsuccess
  rw [hafter, hbefore] at huids
  by_cases hone : m.uid = 1
  · rw [hone] at huids
    exact absurd huids (by decide)
  · rw [List.filter_cons_of_pos (by simpa using Ne.symm hone)] at huids
    cases huids

end Errand.Server.EmailMoves
