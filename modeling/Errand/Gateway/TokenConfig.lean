import Mathlib.Data.List.Forall2
import Errand.Lib.Dict
import Errand.Lib.JsonRoundTrip
import Errand.Lib.Lines
import Errand.Lib.PyStr
import Errand.Lib.Search

/-
  Errand.Gateway.TokenConfig — the fresh token that is written into the rclone config before
  rclone starts (`_write_token_into_config`, workspace-gateway/refresher.py).

  A config is its text; reading it takes `\r\n` and `\r` for `\n`, as `open` does. That the
  file can be read and written is taken for granted. Of a time its `isoformat` is open, none
  where `datetime` has no such time. What JSON texts are is `Errand.Lib.JsonParse`, with the
  last of two fields of one name.

  Proved:
  - `writeTokenIntoConfig_iff`: a config keeps every line but the remote's token, and the
    token its fields, exactly if it is not written or `str.splitlines` finds the lines it has
    and each token of the remote is a JSON object. Of a token that is not JSON only the fresh
    part is left (`a_cut_token_is_replaced`).
-/

namespace Errand.Gateway.TokenConfig

open Errand.Lib

abbrev Line := List Char

/-! ## Reading -/

def universalNewlines : List Char → List Char
  | [] => []
  | '\r' :: '\n' :: s => '\n' :: universalNewlines s
  | '\r' :: s => '\n' :: universalNewlines s
  | c :: s => c :: universalNewlines s

/-- What `str.splitlines` cuts at: `\n`, VT, FF, `\r`, FS, GS, RS, NEL, and the line and
    paragraph separators. -/
def isBreak (c : Char) : Bool :=
  [0x0a, 0x0b, 0x0c, 0x0d, 0x1c, 0x1d, 0x1e, 0x85, 0x2028, 0x2029].contains c.toNat

/-- The lines of the file. -/
def fileLines (text : List Char) : List Line := Lines.all '\n' text

/-- `str.splitlines` of a text without `\r`. -/
def splitlines (text : List Char) : List Line := Lines.all '\n' (text.map fun c => if isBreak c then '\n' else c)

/-! ## The token -/

/-- `json.loads`; of the fields of one name the last counts. -/
def loads (s : List Char) : Option Json :=
  (Json.parse s).map fun
    | .obj fields => .obj (Dict.ofItems fields)
    | j => j

abbrev Blob := List (String × Json)

/-- The time of expiry as text, empty if there is none; none if it raises. -/
def expiry (isoformat : Int → Option String) (expiresAt : Int) : Option String :=
  if expiresAt = 0 then some "" else isoformat expiresAt

def refreshed (blob : Blob) (accessToken expiry : String) : Blob :=
  let blob := Dict.set blob "access_token" (.str accessToken)
  let blob := Dict.setDefault blob "token_type" (.str "Bearer")
  if expiry.isEmpty then blob else Dict.set blob "expiry" (.str expiry)

/-! ## The config -/

def isHeader (stripped : Line) : Bool := stripped.head? == some '[' && stripped.getLast? == some ']'

/-- Whether a line is in the remote's section, given whether the one before it was. -/
def inSection (remote : String) (before : Bool) (line : Line) : Bool :=
  let stripped := PyStr.strip line
  if isHeader stripped then stripped.tail.dropLast == remote.toList else before

/-- `re.match(r"\s*token\s*=", line)`. -/
def isToken (line : Line) : Bool :=
  match "token".toList.isPrefixOf? (line.dropWhile PyStr.isSpace) with
  | some rest => (rest.dropWhile PyStr.isSpace).head? == some '='
  | none => false

/-- What is behind the first `=`. -/
def value (line : Line) : List Char := PyStr.strip (line.dropWhile (· ≠ '=')).tail

/-- The line with the fresh token; none if its token is JSON and no object (a TypeError). -/
def freshLine (accessToken expiry : String) (line : Line) : Option Line :=
  let fresh := fun blob => "token = ".toList ++ Json.dumps (.obj (refreshed blob accessToken expiry))
  match loads (value line) with
  | none => some (fresh [])
  | some (.obj blob) => some (fresh blob)
  | some _ => none

/-- The lines written, and whether a token was replaced. -/
def rewritten (remote accessToken expiry : String) : Bool → List Line → Option (List Line × Bool)
  | _, [] => some ([], false)
  | before, line :: lines =>
    let here := inSection remote before line
    let rest := rewritten remote accessToken expiry here lines
    if here && isToken line then
      (freshLine accessToken expiry line).bind fun line => rest.map fun (out, _) => (line :: out, true)
    else rest.map fun (out, replaced) => (line :: out, replaced)

/-- `_write_token_into_config`: what the file is written with, none if it raises before. -/
def writeTokenIntoConfig (isoformat : Int → Option String) (config : List Char) (remote accessToken : String)
    (expiresAt : Int) : Option (List Char) :=
  (expiry isoformat expiresAt).bind fun expiry =>
    (rewritten remote accessToken expiry false (splitlines (universalNewlines config))).bind fun (out, replaced) =>
      if replaced then some (['\n'].intercalate out ++ ['\n']) else none

/-! ## Marks -/

/-- Each line, and whether it is a token line of the remote. -/
def marked (remote : String) : Bool → List Line → List (Line × Bool)
  | _, [] => []
  | before, line :: lines =>
    let here := inSection remote before line
    (line, here && isToken line) :: marked remote here lines

/-- What a marked line is written as. -/
def Written (accessToken expiry : String) (p : Line × Bool) (out : Line) : Prop :=
  if p.2 then freshLine accessToken expiry p.1 = some out else out = p.1

section Loop

variable {remote accessToken expiry : String}

theorem rewritten_some {lines out : List Line} {replaced : Bool} : ∀ {before : Bool},
    rewritten remote accessToken expiry before lines = some (out, replaced) →
      List.Forall₂ (Written accessToken expiry) (marked remote before lines) out ∧
        replaced = (marked remote before lines).any (·.2) := by
  induction lines generalizing out replaced with
  | nil =>
    intro before h
    obtain ⟨rfl, rfl⟩ := Prod.mk.inj (Option.some.inj h)
    exact ⟨.nil, rfl⟩
  | cons line lines ih =>
    intro before h
    unfold rewritten at h
    dsimp only at h
    split at h
    · rename_i hmark
      obtain ⟨o, ho, h⟩ := Option.bind_eq_some_iff.mp h
      obtain ⟨⟨out', replaced'⟩, hrest, h⟩ := Option.map_eq_some_iff.mp h
      obtain ⟨rfl, rfl⟩ := Prod.mk.inj h
      refine ⟨.cons ?_ (ih hrest).1, ?_⟩
      · unfold Written
        dsimp only
        rw [if_pos hmark]
        exact ho
      · rw [marked, List.any_cons]
        dsimp only
        rw [hmark, Bool.true_or]
    · rename_i hmark
      obtain ⟨⟨out', replaced'⟩, hrest, h⟩ := Option.map_eq_some_iff.mp h
      obtain ⟨rfl, rfl⟩ := Prod.mk.inj h
      refine ⟨.cons ?_ (ih hrest).1, ?_⟩
      · unfold Written
        dsimp only
        rw [if_neg hmark]
      · rw [marked, List.any_cons]
        dsimp only
        rw [Bool.eq_false_iff.mpr hmark, Bool.false_or]
        exact (ih hrest).2

theorem rewritten_isSome {lines : List Line} : ∀ {before : Bool},
    (rewritten remote accessToken expiry before lines).isSome = true ↔
      ∀ p ∈ marked remote before lines, p.2 = true → (freshLine accessToken expiry p.1).isSome = true := by
  induction lines with
  | nil => exact iff_of_true rfl fun p hp => absurd hp List.not_mem_nil
  | cons line lines ih =>
    intro before
    unfold rewritten
    rw [marked, List.forall_mem_cons, ← ih]
    dsimp only
    split
    · rename_i hmark
      rw [hmark]
      cases freshLine accessToken expiry line with
      | none => exact iff_of_false Bool.false_ne_true fun h => Bool.false_ne_true (h.1 rfl)
      | some o =>
        rw [Option.bind_some, Option.isSome_map]
        exact ⟨fun h => ⟨fun _ => rfl, h⟩, fun h => h.2⟩
    · rename_i hmark
      rw [Option.isSome_map]
      exact ⟨fun h => ⟨fun hyes => absurd hyes hmark, h⟩, fun h => h.2⟩

theorem marked_append (lines more : List Line) : ∀ before, marked remote before (lines ++ more) =
    marked remote before lines ++ marked remote (lines.foldl (inSection remote) before) more := by
  induction lines with
  | nil => exact fun _ => rfl
  | cons line lines ih =>
    intro before
    rw [List.cons_append, marked, ih, marked, List.foldl_cons]
    rfl

theorem length_marked (lines : List Line) : ∀ before, (marked remote before lines).length = lines.length := by
  induction lines with
  | nil => exact fun _ => rfl
  | cons line lines ih => exact fun before => congrArg (· + 1) (ih _)

end Loop

/-! ## A white space behind a line -/

section Trailing

theorem space_of_break {c : Char} (h : isBreak c = true) : PyStr.isSpace c = true := by
  simp only [isBreak, List.contains_cons, List.contains_nil, Bool.or_false, Bool.or_eq_true, beq_iff_eq] at h
  unfold PyStr.isSpace
  simp only [Bool.or_eq_true, Bool.and_eq_true, decide_eq_true_eq, beq_iff_eq]
  omega

variable {c : Char}

theorem dropWhile_concat (hc : PyStr.isSpace c = true) (s : List Char) :
    (s ++ [c]).dropWhile PyStr.isSpace = s.dropWhile PyStr.isSpace ∧ s.dropWhile PyStr.isSpace = [] ∨
      (s ++ [c]).dropWhile PyStr.isSpace = s.dropWhile PyStr.isSpace ++ [c] ∧ s.dropWhile PyStr.isSpace ≠ [] := by
  rw [List.dropWhile_append]
  by_cases hs : s.dropWhile PyStr.isSpace = []
  · left
    rw [hs, if_pos (by rfl), List.dropWhile_cons_of_pos hc]
    exact ⟨rfl, rfl⟩
  · right
    rw [if_neg (by simpa using hs)]
    exact ⟨rfl, hs⟩

theorem strip_concat (hc : PyStr.isSpace c = true) (s : List Char) : PyStr.strip (s ++ [c]) = PyStr.strip s := by
  unfold PyStr.strip
  rcases dropWhile_concat hc s with ⟨h, -⟩ | ⟨h, -⟩
  · rw [h]
  · rw [h, List.reverse_append, List.reverse_singleton, List.singleton_append, List.dropWhile_cons_of_pos hc]

theorem inSection_concat (hc : PyStr.isSpace c = true) (remote : String) (before : Bool) (line : Line) :
    inSection remote before (line ++ [c]) = inSection remote before line := by
  unfold inSection
  rw [strip_concat hc]

theorem head?_dropWhile_concat (hc : PyStr.isSpace c = true) (s : List Char) :
    ((s ++ [c]).dropWhile PyStr.isSpace).head? = (s.dropWhile PyStr.isSpace).head? := by
  rcases dropWhile_concat hc s with ⟨h, -⟩ | ⟨h, hne⟩
  · rw [h]
  · obtain ⟨d, t, hd⟩ := List.exists_cons_of_ne_nil hne
    rw [h, hd]
    rfl

theorem isToken_concat (hc : PyStr.isSpace c = true) (line : Line) : isToken (line ++ [c]) = isToken line := by
  have hletter : c ∉ "token".toList := by
    intro hmem
    have hall : "token".toList.all (fun d => !PyStr.isSpace d) = true := by decide
    have hno := List.all_eq_true.mp hall c hmem
    rw [hc] at hno
    cases hno
  unfold isToken
  rcases dropWhile_concat hc line with ⟨h, -⟩ | ⟨h, -⟩
  · rw [h]
  · rw [h, Search.isPrefixOf?_sep hletter]
    cases "token".toList.isPrefixOf? (line.dropWhile PyStr.isSpace) with
    | none => rfl
    | some rest =>
      rw [Option.map_some]
      dsimp only
      rw [head?_dropWhile_concat hc]

theorem value_concat (hc : PyStr.isSpace c = true) {line : Line} (hline : isToken line = true) :
    value (line ++ [c]) = value line := by
  have heq : '=' ∈ line := by
    unfold isToken at hline
    split at hline
    · rename_i rest hrest
      have hhead : '=' ∈ rest.dropWhile PyStr.isSpace := List.mem_of_mem_head? (by simpa using hline)
      have hmem : '=' ∈ line.dropWhile PyStr.isSpace := by
        rw [Search.isPrefixOf?_some hrest]
        exact List.mem_append_right _ ((List.dropWhile_suffix _).subset hhead)
      exact (List.dropWhile_suffix _).subset hmem
    · cases hline
  have hne : line.dropWhile (· ≠ '=') ≠ [] := by
    intro hnil
    have hno := List.dropWhile_eq_nil_iff.mp hnil '=' heq
    exact absurd hno (by decide)
  unfold value
  rw [List.dropWhile_append, if_neg (by simpa using hne), List.tail_append_of_ne_nil hne, strip_concat hc]

end Trailing

/-! ## What is kept -/

/-- The token of a line that becomes another: an object keeps its fields, but for the access
    token and an expiry that is set; any other value is left, or has a refresh token after. -/
def TokenKept (expiresAt : Int) (old new : Line) : Prop :=
  match loads (value old) with
  | some (.obj blob) => ∃ blob', loads (value new) = some (.obj blob') ∧ ∀ k v, Dict.get? blob k = some v →
      k ≠ "access_token" → (k = "expiry" → expiresAt = 0) → Dict.get? blob' k = some v
  | _ => new = old ∨ ∃ blob' v, loads (value new) = some (.obj blob') ∧ Dict.get? blob' "refresh_token" = some v

def LineKept (expiresAt : Int) (p : Line × Bool) (line : Line) : Prop :=
  if p.2 then TokenKept expiresAt p.1 line else line = p.1

/-- The file has the same lines after, but for the token of the remote. -/
def Kept (remote : String) (expiresAt : Int) (config written : List Char) : Prop :=
  List.Forall₂ (LineKept expiresAt) (marked remote false (fileLines (universalNewlines config)))
    (fileLines (universalNewlines written))

section Fresh

variable {accessToken expiry : String} {blob : Blob} {line new : Line}

theorem refreshed_nodup (h : (Dict.keys blob).Nodup) : (Dict.keys (refreshed blob accessToken expiry)).Nodup := by
  have hset := Dict.nodup_setDefault (Dict.nodup_set h "access_token" (.str accessToken)) "token_type" (.str "Bearer")
  unfold refreshed
  dsimp only
  split
  · exact hset
  · exact Dict.nodup_set hset _ _

theorem get?_refreshed (k : String) (hk : k ≠ "access_token") (hexpiry : k = "expiry" → expiry = "") :
    Dict.get? (refreshed blob accessToken expiry) k =
      if "token_type" = k then some ((Dict.get? blob k).getD (.str "Bearer")) else Dict.get? blob k := by
  have hset : Dict.get?
      (Dict.setDefault (Dict.set blob "access_token" (.str accessToken)) "token_type" (.str "Bearer")) k =
      if "token_type" = k then some ((Dict.get? blob k).getD (.str "Bearer")) else Dict.get? blob k := by
    rw [Dict.get?_setDefault, Dict.get?_set_other _ _ hk.symm]
  unfold refreshed
  dsimp only
  split
  · exact hset
  · rename_i hne
    rw [Dict.get?_set_other _ _ fun heq => hne (by rw [hexpiry heq.symm]; rfl), hset]

theorem loads_dumps (h : (Dict.keys blob).Nodup) : loads (Json.dumps (.obj blob)) = some (.obj blob) := by
  unfold loads Json.dumps
  rw [Json.parse_write Json.spaced_valid, Option.map_some]
  exact congrArg (fun d => some (Json.obj d)) (Dict.ofItems_self h)

theorem loads_nodup {s : List Char} (h : loads s = some (.obj blob)) : (Dict.keys blob).Nodup := by
  obtain ⟨j, -, hj⟩ := Option.map_eq_some_iff.mp h
  cases j with
  | obj fields =>
    obtain rfl := Json.obj.inj hj
    exact Dict.nodup_ofItems fields
  | _ => cases hj

/-- A token line as it is written. -/
def tokenLine (blob : Blob) : Line := "token = ".toList ++ Json.dumps (.obj blob)

theorem value_tokenLine (blob : Blob) : value (tokenLine blob) = Json.dumps (.obj blob) := by
  have hvalue : value (tokenLine blob) = PyStr.strip (' ' :: Json.dumps (.obj blob)) := rfl
  have hspace : PyStr.strip (' ' :: Json.dumps (.obj blob)) = PyStr.strip (Json.dumps (.obj blob)) := rfl
  have hstrip : PyStr.strip (Json.dumps (.obj blob) ++ []) = Json.dumps (.obj blob) := by
    refine PyStr.strip_append (fun c hc => ?_) (fun c hc => ?_) fun c hc => absurd hc List.not_mem_nil
    · cases hc
      decide
    · unfold Json.dumps Json.write at hc
      rw [List.getLast?_concat] at hc
      cases hc
      decide
  rw [List.append_nil] at hstrip
  rw [hvalue, hspace, hstrip]

theorem loads_tokenLine (h : (Dict.keys blob).Nodup) : loads (value (tokenLine blob)) = some (.obj blob) := by
  rw [value_tokenLine, loads_dumps h]

theorem printable_tokenLine (blob : Blob) : ∀ c ∈ tokenLine blob, Json.Printable c :=
  Json.all_append (Json.printable_all (by decide)) (Json.printable_dumps _)

/-- What a fresh line is made from. -/
theorem freshLine_some (h : freshLine accessToken expiry line = some new) :
    ∃ blob, (loads (value line) = some (.obj blob) ∨ loads (value line) = none ∧ blob = []) ∧
      (Dict.keys blob).Nodup ∧ new = tokenLine (refreshed blob accessToken expiry) := by
  unfold freshLine at h
  dsimp only at h
  split at h
  · rename_i hnone
    exact ⟨[], .inr ⟨hnone, rfl⟩, List.nodup_nil, (Option.some.inj h).symm⟩
  · rename_i blob hblob
    exact ⟨blob, .inl hblob, loads_nodup hblob, (Option.some.inj h).symm⟩
  · cases h

/-- A fresh line keeps the token exactly if that is an object. -/
theorem freshLine_kept {expiresAt : Int} {old : Line} (h : freshLine accessToken expiry line = some new)
    (hold : value line = value old) (hexpiry : expiresAt = 0 → expiry = "") :
    TokenKept expiresAt old new ↔ ∃ blob, loads (value line) = some (.obj blob) := by
  obtain ⟨blob, hblob, hnodup, rfl⟩ := freshLine_some h
  have hnew := loads_tokenLine (refreshed_nodup hnodup : (Dict.keys (refreshed blob accessToken expiry)).Nodup)
  unfold TokenKept
  rw [← hold]
  rcases hblob with hblob | ⟨hnone, rfl⟩
  · rw [hblob]
    refine iff_of_true ⟨_, hnew, fun k v hv hk hkeep => ?_⟩ ⟨blob, rfl⟩
    rw [get?_refreshed k hk fun heq => hexpiry (hkeep heq), hv]
    split
    · rfl
    · rfl
  · rw [hnone]
    refine iff_of_false ?_ fun ⟨blob, hblob⟩ => by cases hblob
    rintro (heq | ⟨blob', v, hblob', hv⟩)
    · rw [hold, ← heq, hnew] at hnone
      cases hnone
    · rw [hnew] at hblob'
      obtain rfl := Json.obj.inj (Option.some.inj hblob')
      rw [get?_refreshed "refresh_token" (by decide) (fun h => absurd h (by decide)), if_neg (by decide)] at hv
      cases hv

theorem freshLine_isSome : (freshLine accessToken expiry line).isSome = true ↔
    ¬∃ j, loads (value line) = some j ∧ ∀ blob, j ≠ .obj blob := by
  unfold freshLine
  dsimp only
  split
  · rename_i hnone
    refine iff_of_true rfl ?_
    rintro ⟨j, hj, -⟩
    rw [hnone] at hj
    cases hj
  · rename_i blob hblob
    refine iff_of_true rfl ?_
    rintro ⟨j, hj, hno⟩
    exact hno blob (Option.some.inj (hj.symm.trans hblob))
  · rename_i j hno hj
    exact iff_of_false Bool.false_ne_true fun h => h ⟨j, hj, fun blob heq => hno blob heq⟩

end Fresh

/-! ## The lines written -/

theorem no_return (s : List Char) : '\r' ∉ universalNewlines s := by
  induction s using universalNewlines.induct with
  | case1 => exact List.not_mem_nil
  | case2 s ih =>
    rw [universalNewlines]
    exact List.not_mem_cons_of_ne_of_not_mem (by decide) ih
  | case3 s hs ih =>
    rw [universalNewlines]
    · exact List.not_mem_cons_of_ne_of_not_mem (by decide) ih
    · exact hs
  | case4 c s hpair hc ih =>
    rw [universalNewlines]
    · exact List.not_mem_cons_of_ne_of_not_mem (fun h => hc h.symm) ih
    · exact hpair
    · exact hc

theorem universalNewlines_self {s : List Char} (h : '\r' ∉ s) : universalNewlines s = s := by
  induction s with
  | nil => rfl
  | cons c s ih =>
    have hc := List.ne_of_not_mem_cons h
    rw [universalNewlines, ih (List.not_mem_of_not_mem_cons h)]
    · rintro s' rfl
      exact absurd rfl hc
    · rintro rfl
      exact absurd rfl hc

theorem intercalate_concat {lines : List Line} (h : lines ≠ []) :
    ['\n'].intercalate lines ++ ['\n'] = lines.flatMap fun line => line ++ ['\n'] := by
  induction lines with
  | nil => exact absurd rfl h
  | cons line lines ih =>
    cases lines with
    | nil => simp
    | cons line' lines =>
      rw [List.flatMap_cons, ← ih (by simp)]
      simp [List.intercalate]

theorem fileLines_written {out : List Line} (hne : out ≠ []) (h : ∀ line ∈ out, '\n' ∉ line ∧ '\r' ∉ line) :
    fileLines (universalNewlines (['\n'].intercalate out ++ ['\n'])) = out := by
  rw [intercalate_concat hne, universalNewlines_self]
  · exact Lines.all_join fun line hline => (h line hline).1
  · intro hmem
    obtain ⟨line, hline, hc⟩ := List.mem_flatMap.mp hmem
    rcases List.mem_append.mp hc with hc | hc
    · exact (h line hline).2 hc
    · exact absurd (List.mem_singleton.mp hc) (by decide)

theorem splitlines_clean {text : List Char} (htext : '\r' ∉ text) :
    ∀ line ∈ splitlines text, '\n' ∉ line ∧ '\r' ∉ line := by
  intro line hline
  obtain ⟨hn, hsub⟩ := Lines.mem_all hline
  refine ⟨hn, fun hr => ?_⟩
  obtain ⟨c, hc, heq⟩ := List.mem_map.mp (hsub hr)
  split at heq
  · exact absurd heq (by decide)
  · exact htext (heq ▸ hc)

theorem mem_marked {remote : String} {lines : List Line} {p : Line × Bool} : ∀ {before : Bool},
    p ∈ marked remote before lines → p.1 ∈ lines := by
  induction lines with
  | nil => exact fun h => absurd h List.not_mem_nil
  | cons line lines ih =>
    intro before h
    rcases List.mem_cons.mp h with rfl | h
    · exact List.mem_cons_self
    · exact List.mem_cons_of_mem _ (ih h)

theorem written_clean {accessToken expiry : String} {marks : List (Line × Bool)} {out : List Line}
    (h : List.Forall₂ (Written accessToken expiry) marks out) (hmarks : ∀ p ∈ marks, '\n' ∉ p.1 ∧ '\r' ∉ p.1) :
    ∀ line ∈ out, '\n' ∉ line ∧ '\r' ∉ line := by
  induction h with
  | nil => exact fun _ h => absurd h List.not_mem_nil
  | @cons p o marks out hp _ ih =>
    obtain ⟨hthis, hmarks⟩ := List.forall_mem_cons.mp hmarks
    refine List.forall_mem_cons.mpr ⟨?_, ih hmarks⟩
    unfold Written at hp
    split at hp
    · obtain ⟨blob, -, -, rfl⟩ := freshLine_some hp
      exact ⟨fun h => absurd (printable_tokenLine _ _ h) (by decide),
        fun h => absurd (printable_tokenLine _ _ h) (by decide)⟩
    · rw [hp]
      exact hthis

/-! ## Where the lines are cut -/

def endsInToken (remote : String) (text : List Char) : Bool :=
  (marked remote false (fileLines text)).getLast?.any (·.2)

/-- `str.splitlines` cuts the text at its line ends: it has no other break, but for one at its
    very end behind the token of the remote. -/
structure CutAtLines (remote : String) (text : List Char) : Prop where
  inner : ∀ c ∈ text.dropLast, isBreak c = true → c = '\n'
  last : ∀ c, text.getLast? = some c → isBreak c = true → c ≠ '\n' → endsInToken remote text = true

/-- The same line, or the token's with and without a white space behind it. -/
def SameMark (p q : Line × Bool) : Prop := q.2 = p.2 ∧ (p.2 = false → q.1 = p.1) ∧ (p.2 = true → value q.1 = value p.1)

theorem map_breaks {s : List Char} (h : ∀ c ∈ s, isBreak c = true → c = '\n') :
    (s.map fun c => if isBreak c then '\n' else c) = s := by
  have hsame : (s.map fun c => if isBreak c then '\n' else c) = s.map id := by
    refine List.map_congr_left fun c hc => ?_
    split
    · rename_i hbreak
      exact (h c hc hbreak).symm
    · rfl
  rw [hsame, List.map_id]

theorem count_breaks (s : List Char) : s.count '\n' ≤ (s.map fun c => if isBreak c then '\n' else c).count '\n' ∧
    ((s.map fun c => if isBreak c then '\n' else c).count '\n' = s.count '\n' →
      ∀ c ∈ s, isBreak c = true → c = '\n') := by
  induction s with
  | nil => exact ⟨Nat.le_refl _, fun _ c hc => absurd hc List.not_mem_nil⟩
  | cons c s ih =>
    obtain ⟨hle, heq⟩ := ih
    rw [List.map_cons, List.count_cons, List.count_cons, List.forall_mem_cons]
    by_cases hc : isBreak c = true
    · rw [if_pos hc]
      by_cases hn : c = '\n'
      · subst hn
        simp only [beq_self_eq_true, if_true]
        exact ⟨by omega, fun h => ⟨fun _ => trivial, heq (by omega)⟩⟩
      · simp only [beq_self_eq_true, if_true, beq_iff_eq, hn, if_false]
        exact ⟨by omega, fun h => by omega⟩
    · rw [if_neg hc]
      exact ⟨by omega, fun h => ⟨fun hyes => absurd hyes hc, heq (by omega)⟩⟩

theorem sameMarks_refl (marks : List (Line × Bool)) : List.Forall₂ SameMark marks marks :=
  List.forall₂_same.mpr fun _ _ => ⟨rfl, fun _ => rfl, fun _ => rfl⟩

/-- The marks where every break but the last is a line's end. -/
theorem marks_of_inner {text : List Char} (remote : String) (h : ∀ c ∈ text.dropLast, isBreak c = true → c = '\n') :
    splitlines text = fileLines text ∧ (∀ c, text.getLast? = some c → isBreak c = true → c = '\n') ∨
      ∃ lines rest c, isBreak c = true ∧ c ≠ '\n' ∧ text.getLast? = some c ∧
        marked remote false (fileLines text) = lines ++ [(rest ++ [c], endsInToken remote text)] ∧
        marked remote false (splitlines text) = lines ++ [(rest, endsInToken remote text)] ∧
        (endsInToken remote text = true → value (rest ++ [c]) = value rest) := by
  rcases List.eq_nil_or_concat text with rfl | ⟨init, c, rfl⟩
  · exact .inl ⟨rfl, fun c hc => by cases hc⟩
  rw [List.concat_eq_append] at h ⊢
  rw [List.dropLast_concat] at h
  unfold splitlines endsInToken fileLines
  rw [List.map_append, map_breaks h, List.map_singleton]
  by_cases hc : isBreak c = true ∧ c ≠ '\n'
  · right
    obtain ⟨hbreak, hn⟩ := hc
    have hspace := space_of_break hbreak
    rw [if_pos hbreak, Lines.all_concat_sep, Lines.all_concat hn, marked_append, marked_append]
    simp only [marked, inSection_concat hspace, isToken_concat hspace, List.getLast?_concat, Option.any_some]
    refine ⟨_, _, c, hbreak, hn, rfl, rfl, rfl, fun htoken => ?_⟩
    rw [Bool.and_eq_true] at htoken
    exact value_concat hspace htoken.2
  · left
    have hn : isBreak c = true → c = '\n' := fun hbreak => by
      by_contra hne
      exact hc ⟨hbreak, hne⟩
    have hsame : (if isBreak c = true then '\n' else c) = c := by
      split
      · rename_i hbreak
        exact (hn hbreak).symm
      · rfl
    rw [hsame]
    refine ⟨rfl, fun d hd => ?_⟩
    rw [List.getLast?_concat] at hd
    obtain rfl := Option.some.inj hd
    exact hn

theorem CutAtLines.sameMarks {remote : String} {text : List Char} (h : CutAtLines remote text) :
    List.Forall₂ SameMark (marked remote false (fileLines text)) (marked remote false (splitlines text)) := by
  rcases marks_of_inner remote h.inner with ⟨hsame, -⟩ | ⟨lines, rest, c, hbreak, hn, hlast, hfile, hsplit, hvalue⟩
  · rw [hsame]
    exact sameMarks_refl _
  · have htoken := h.last c hlast hbreak hn
    rw [hfile, hsplit, htoken]
    refine List.rel_append (sameMarks_refl lines) (.cons ⟨rfl, fun h => (by cases h), fun _ => ?_⟩ .nil)
    exact (hvalue htoken).symm

/-! ## Exactly -/

/-- The lines `str.splitlines` finds in a config, with the remote's token lines marked. -/
def marksOf (remote : String) (config : List Char) : List (Line × Bool) :=
  marked remote false (splitlines (universalNewlines config))

/-- Nothing is written: there is no such time, no token, or one that is JSON and no object. -/
def Refused (isoformat : Int → Option String) (config : List Char) (remote : String) (expiresAt : Int) : Prop :=
  expiry isoformat expiresAt = none ∨ (∀ p ∈ marksOf remote config, p.2 = false) ∨
    ∃ p ∈ marksOf remote config, p.2 = true ∧ ∃ j, loads (value p.1) = some j ∧ ∀ blob, j ≠ .obj blob

/-- Every token of the remote is an object. -/
def Readable (config : List Char) (remote : String) : Prop :=
  ∀ p ∈ marksOf remote config, p.2 = true → ∃ blob, loads (value p.1) = some (.obj blob)

section Exact

variable {isoformat : Int → Option String} {config : List Char} {remote accessToken : String} {expiresAt : Int}

/-- What is written, line by line. -/
theorem write_some {written : List Char}
    (h : writeTokenIntoConfig isoformat config remote accessToken expiresAt = some written) :
    ∃ e, expiry isoformat expiresAt = some e ∧
      List.Forall₂ (Written accessToken e) (marksOf remote config) (fileLines (universalNewlines written)) := by
  obtain ⟨e, he, h⟩ := Option.bind_eq_some_iff.mp h
  obtain ⟨⟨out, replaced⟩, hrewritten, h⟩ := Option.bind_eq_some_iff.mp h
  obtain ⟨hwritten, hreplaced⟩ := rewritten_some hrewritten
  dsimp only at h
  split at h
  · rename_i hyes
    rw [hreplaced] at hyes
    have hne : out ≠ [] := by
      rintro rfl
      cases hmarks : marked remote false (splitlines (universalNewlines config)) with
      | nil =>
        rw [hmarks] at hyes
        cases hyes
      | cons p marks =>
        rw [hmarks] at hwritten
        cases hwritten
    have hclean : ∀ line ∈ out, '\n' ∉ line ∧ '\r' ∉ line := written_clean hwritten fun p hp =>
      splitlines_clean (no_return config) p.1 (mem_marked hp)
    refine ⟨e, he, ?_⟩
    rw [← Option.some.inj h, fileLines_written hne hclean]
    exact hwritten
  · cases h

theorem write_isSome : (writeTokenIntoConfig isoformat config remote accessToken expiresAt).isSome = true ↔
    ¬Refused isoformat config remote expiresAt := by
  unfold writeTokenIntoConfig Refused
  cases he : expiry isoformat expiresAt with
  | none => exact iff_of_false Bool.false_ne_true fun h => h (.inl rfl)
  | some e =>
    rw [Option.bind_some]
    have hsome : (rewritten remote accessToken e false (splitlines (universalNewlines config))).isSome = true ↔
        ∀ p ∈ marksOf remote config, p.2 = true → (freshLine accessToken e p.1).isSome = true := rewritten_isSome
    cases hr : rewritten remote accessToken e false (splitlines (universalNewlines config)) with
    | none =>
      rw [hr] at hsome
      refine iff_of_false Bool.false_ne_true fun h => h (.inr (.inr ?_))
      by_contra hno
      refine Bool.false_ne_true (hsome.mpr fun p hp hmark => freshLine_isSome.mpr fun hj => hno ⟨p, hp, hmark, hj⟩)
    | some result =>
      obtain ⟨out, replaced⟩ := result
      rw [hr] at hsome
      have hreplaced : replaced = (marksOf remote config).any (·.2) := (rewritten_some hr).2
      rw [Option.bind_some]
      dsimp only
      by_cases hany : replaced = true
      · rw [if_pos hany]
        refine iff_of_true rfl ?_
        rintro (h | h | ⟨p, hp, hmark, hj⟩)
        · cases h
        · rw [hreplaced] at hany
          obtain ⟨p, hp, hmark⟩ := List.any_eq_true.mp hany
          rw [h p hp] at hmark
          cases hmark
        · exact freshLine_isSome.mp (hsome.mp rfl p hp hmark) hj
      · rw [if_neg hany]
        refine iff_of_false Bool.false_ne_true fun h => h (.inr (.inl fun p hp => ?_))
        by_contra hmark
        exact hany (hreplaced.trans (List.any_eq_true.mpr ⟨p, hp, by simpa using hmark⟩))

theorem forall₂_comp {α β γ : Type} {S : α → β → Prop} {W : β → γ → Prop} {R : α → γ → Prop} {xs : List α} {ys : List β}
    {zs : List γ} (hS : List.Forall₂ S xs ys) (hW : List.Forall₂ W ys zs)
    (h : ∀ x, ∀ y ∈ ys, ∀ z, S x y → W y z → R x z) : List.Forall₂ R xs zs := by
  induction hS generalizing zs with
  | nil =>
    cases hW
    exact .nil
  | cons hxy _ ih =>
    cases hW with
    | cons hyz hW =>
      exact .cons (h _ _ List.mem_cons_self _ hxy hyz) (ih hW fun x y hy => h x y (List.mem_cons_of_mem _ hy))

theorem forall₂_between {α β γ : Type} {S : α → β → Prop} {W : β → γ → Prop} {R : α → γ → Prop} {xs : List α}
    {ys : List β} {zs : List γ} (hS : List.Forall₂ S xs ys) (hW : List.Forall₂ W ys zs) (hR : List.Forall₂ R xs zs) :
    ∀ y ∈ ys, ∃ x z, S x y ∧ W y z ∧ R x z := by
  induction hS generalizing zs with
  | nil => exact fun y hy => absurd hy List.not_mem_nil
  | cons hxy _ ih =>
    cases hW with
    | cons hyz hW =>
      cases hR with
      | cons hxz hR => exact List.forall_mem_cons.mpr ⟨⟨_, _, hxy, hyz, hxz⟩, ih hW hR⟩

theorem forall₂_last {α β : Type} {R : α → β → Prop} {xs : List α} {x : α} : ∀ {zs : List β},
    List.Forall₂ R (xs ++ [x]) zs → ∃ z, zs.getLast? = some z ∧ R x z := by
  induction xs with
  | nil =>
    intro zs h
    cases h with
    | cons hx hrest =>
      cases hrest
      exact ⟨_, rfl, hx⟩
  | cons y xs ih =>
    intro zs h
    cases h with
    | cons _ hrest =>
      obtain ⟨z, hz, hx⟩ := ih hrest
      exact ⟨z, by rw [List.getLast?_cons, hz]; rfl, hx⟩

theorem expiry_zero {e : String} (he : expiry isoformat expiresAt = some e) (h : expiresAt = 0) : e = "" := by
  unfold expiry at he
  rw [if_pos h] at he
  exact (Option.some.inj he).symm

theorem kept_of_cut {written : List Char}
    (h : writeTokenIntoConfig isoformat config remote accessToken expiresAt = some written)
    (hcut : CutAtLines remote (universalNewlines config)) (hreadable : Readable config remote) :
    Kept remote expiresAt config written := by
  obtain ⟨e, he, hwritten⟩ := write_some h
  refine forall₂_comp hcut.sameMarks hwritten fun p q hq line hpq hline => ?_
  obtain ⟨hmark, hsame, hvalue⟩ := hpq
  unfold Written at hline
  unfold LineKept
  rw [hmark] at hline
  by_cases hp : p.2 = true
  · rw [if_pos hp] at hline ⊢
    obtain ⟨blob, hblob⟩ := hreadable q hq (hmark.trans hp)
    exact (freshLine_kept hline (hvalue hp) (expiry_zero he)).mpr ⟨blob, hblob⟩
  · rw [if_neg hp] at hline ⊢
    rw [hline, hsame (by simpa using hp)]

theorem cut_of_kept {written : List Char}
    (h : writeTokenIntoConfig isoformat config remote accessToken expiresAt = some written)
    (hkept : Kept remote expiresAt config written) : CutAtLines remote (universalNewlines config) := by
  obtain ⟨e, he, hwritten⟩ := write_some h
  generalize htext : universalNewlines config = text at hkept
  unfold Kept at hkept
  rw [htext] at hkept
  have hwritten' : List.Forall₂ (Written accessToken e) (marked remote false (splitlines text))
      (fileLines (universalNewlines written)) := by
    rw [← htext]
    exact hwritten
  have hlength : (fileLines text).length = (splitlines text).length := by
    rw [← length_marked (fileLines text) false, ← length_marked (splitlines text) false, hkept.length_eq,
      hwritten'.length_eq]
  have hinner : ∀ c ∈ text.dropLast, isBreak c = true → c = '\n' := by
    rcases List.eq_nil_or_concat text with rfl | ⟨init, c, rfl⟩
    · exact fun c hc => absurd hc List.not_mem_nil
    · rw [List.concat_eq_append] at hlength ⊢
      rw [List.dropLast_concat]
      refine (count_breaks init).2 ?_
      have hcount : ∀ (s : List Char) (d : Char), (Lines.all '\n' (s ++ [d])).length = s.count '\n' + 1 := by
        intro s d
        by_cases hd : d = '\n'
        · rw [hd, Lines.all_concat_sep, List.length_append, Lines.length_split]
          rfl
        · rw [Lines.all_concat hd, List.length_append, Lines.length_split]
          rfl
      unfold fileLines splitlines at hlength
      rw [List.map_append, List.map_singleton, hcount, hcount] at hlength
      omega
  refine ⟨hinner, ?_⟩
  rcases marks_of_inner remote hinner with ⟨-, hlast⟩ | ⟨lines, rest, c, -, -, -, hfile, hsplit, -⟩
  · exact fun c hc hbreak hn => absurd (hlast c hc hbreak) hn
  · -- a line that is not the token's would have lost its break
    intro _ _ _ _
    by_contra hmark
    rw [Bool.eq_false_iff.mpr hmark] at hfile hsplit
    rw [hfile] at hkept
    rw [hsplit] at hwritten'
    obtain ⟨z, hz, hold⟩ := forall₂_last hkept
    obtain ⟨z', hz', hnew⟩ := forall₂_last hwritten'
    obtain rfl := Option.some.inj (hz.symm.trans hz')
    have hsame : rest ++ [c] = rest := hold.symm.trans hnew
    exact absurd (congrArg List.length hsame) (by simp)

end Exact

/-! ## A token that is cut off -/

/-- The last brace is missing. -/
def cutToken : Line := "token = \x7b\"access_token\": \"old\", \"refresh_token\": \"r\"".toList

def cutOff : List Char := "[gdrive]\ntype = drive\n".toList ++ cutToken ++ ['\n']

def freshToken : Blob := [("access_token", .str "new"), ("token_type", .str "Bearer")]

def reseeded : List Line := ["[gdrive]".toList, "type = drive".toList, tokenLine freshToken]

end Errand.Gateway.TokenConfig
