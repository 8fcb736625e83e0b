import Errand.Evals.Matrix

/-
  Errand.Evals.MatrixProfiles — the profiles of a live evaluation run: which the driver deletes,
  and for which model a repetition ran (see `Errand.Evals.Matrix`).

  The driver deletes what it has created in the same process; a clone that finds a profile under
  its name uses that.

  Proved:
  - `others_kept`: where nobody else creates a profile under a name that the driver at work has
    created one under, it deletes no profile of others.
  - `ran_under_model`: where models have different slugs, and nobody gives a profile of the
    matrix another model, each result is one of its cell's model.
-/

namespace Errand.Evals.Matrix

open Errand.Lib
open ProfileNames (evalProfileName_inj deriveSlug)

variable {jobs : List Job}

/-! ## Profiles of others -/

def Stage.names : Stage → List Text
  | .deleting name names => name :: names
  | _ => []

theorem closing_names (names : List Text) : (closing names).names = names := by
  cases names <;> rfl

/-- The driver has deleted its own profiles only. -/
def Spared (s : Server) : Prop := ∀ owner ∈ s.deleted, owner = .driver

/-- A profile under this name is the driver's. -/
def Ours (s : Server) (name : Text) : Prop := ∀ profile, Dict.get? s.profiles name = some profile → profile.owner = .driver

/-- What a driver holds for its own is. -/
structure Own (s : Server) (d : Driver) : Prop where
  created : ∀ name ∈ d.created, Ours s name
  names : ∀ name ∈ d.stage.names, name ∈ d.created

theorem Own.mono {s t : Server} {d : Driver} (h : Own s d) (hours : ∀ name ∈ d.created, Ours s name → Ours t name) : Own t d :=
  ⟨fun name hname => hours name hname (h.created name hname), h.names⟩

theorem Own.proceed {s : Server} {d : Driver} (h : ∀ name ∈ d.created, Ours s name) : Own s (proceed d) := by
  unfold Matrix.proceed
  split
  · exact ⟨h, List.forall_mem_nil _⟩
  · refine ⟨h, fun name hname => ?_⟩
    rwa [closing_names] at hname

theorem Own.proceedRep {s : Server} {d : Driver} (h : ∀ name ∈ d.created, Ours s name) (job : Job) (reps : List Nat) :
    Own s (proceedRep d job reps) := by
  cases reps with
  | nil => exact Own.proceed h
  | cons rep reps => exact ⟨h, List.forall_mem_nil _⟩

theorem mem_track {d : Driver} {name other : Text} (h : other ∈ (track d name).created) : other ∈ d.created ∨ other = name := by
  unfold track at h
  split at h
  · exact .inl h
  · exact (List.mem_append.mp h).imp_right List.mem_singleton.mp

/-- A deletion behind which the driver's profiles are still its own. -/
theorem Own.deleting {s : Server} {d : Driver} {name : Text} {names : List Text} (h : Own s d)
    (hstage : d.stage = .deleting name names) : Own s { d with stage := closing names, tries := 0 } := by
  refine ⟨h.created, fun other hother => ?_⟩
  rw [closing_names] at hother
  have hnames := h.names
  rw [hstage] at hnames
  exact hnames other (List.mem_cons_of_mem _ hother)

theorem Own.call {s t : Server} {d : Driver} {next : Option Driver} (hs : Spared s) (h : Own s d)
    (ha : Answers d s t next) : Spared t ∧ Own t d ∧ ∀ d', next = some d' → Own t d' := by
  cases ha with
  | fetched _ => exact ⟨hs, h, goes (Own.proceed h.created)⟩
  | reused _ => exact ⟨hs, h, goes (Own.proceedRep h.created ..)⟩
  | noBase _ => exact ⟨hs, h, goes (Own.proceed h.created)⟩
  | @cloned job reps _ src =>
    have hours : ∀ name, (name = job.profile ∨ Ours s name) →
        Ours { s with profiles := Dict.set s.profiles job.profile (cloneOf job src) } name := by
      intro name hname profile hprofile
      rcases Dict.get?_set_cases hprofile with ⟨-, rfl⟩ | ⟨hne, hbefore⟩
      · rfl
      · exact (hname.resolve_left fun heq => hne heq.symm) profile hbefore
    refine ⟨hs, h.mono fun name _ hname => hours name (.inr hname), goes (Own.proceedRep (fun name hname => ?_) ..)⟩
    exact hours name ((mem_track hname).symm.imp_right (h.created name))
  | idle _ => exact ⟨hs, h, stops⟩
  | @recorded job reps result _ _ _ =>
    have hmore : Own { s with results := s.results ++ [result] } d := ⟨h.created, h.names⟩
    exact ⟨hs, hmore, goes (Own.proceedRep hmore.created ..)⟩
  | @refused job reps result _ => exact ⟨hs, h, goes (Own.proceedRep (d := refuse d [result.cell]) h.created ..)⟩
  | @deleted name names hstage profile hname =>
    have hnames := h.names
    rw [hstage] at hnames
    have hdriver : profile.owner = .driver := h.created name (hnames name List.mem_cons_self) profile hname
    have hpop : Own { s with profiles := Dict.pop s.profiles name, deleted := s.deleted ++ [profile.owner] } d :=
      h.mono fun other _ hother p hp => hother p (Dict.get?_pop_some hp).2
    exact ⟨List.forall_mem_append.mpr ⟨hs, List.forall_mem_singleton.mpr hdriver⟩, hpop, goes (hpop.deleting hstage)⟩
  | absent hstage => exact ⟨hs, h, goes (h.deleting hstage)⟩
  | finished _ _ => exact ⟨hs, ⟨h.created, h.names⟩, stops⟩
  | settled _ => exact ⟨hs, h, stops⟩

/-- Nobody else creates a profile under a name that the driver at work has created one under. -/
def apart (s : State) : Event → Bool
  | .create name _ _ => s.driver.all fun d => !d.created.contains name
  | _ => true

theorem own_rule : Rule jobs (fun s e => apart s e = true) Spared Own where
  fresh _ _ := ⟨List.forall_mem_nil _, List.forall_mem_nil _⟩
  call _ _ _ _ hs h ha := h.call hs ha
  again _ _ _ h := ⟨h.created, h.names⟩
  ran _ _ _ _ _ _ _ h _ := ⟨h.created, List.forall_mem_nil _⟩
  create s name _ _ hs h hapart := by
    refine ⟨hs, fun d hd => (h d hd).mono fun other hother hours profile hprofile => ?_⟩
    rcases Dict.get?_set_cases hprofile with ⟨rfl, -⟩ | ⟨-, hbefore⟩
    · have hall : s.driver.all (fun d => !d.created.contains name) = true := hapart
      rw [hd, Option.all_some, Bool.not_eq_true', List.contains_eq_mem, decide_eq_false_iff_not] at hall
      exact absurd hother hall
    · exact hours profile hbefore
  delete _ _ hs := ⟨hs, fun _ h => h.mono fun _ _ hours profile hprofile => hours profile (Dict.get?_pop_some hprofile).2⟩

/-- The driver deletes no profile of others, whatever answers it did not hear and however often
    it died. -/
theorem others_kept {s : State} (h : (machine jobs).ReachIf (fun s e => apart s e = true) s) :
    ∀ owner ∈ s.server.deleted, owner = .driver := by
  refine (own_rule.reach (fun t ht => ?_) h).server
  unfold Spared
  rw [ht.deleted]
  exact List.forall_mem_nil _

/-! ## The model of a result -/

/-- The settings of a profile name the model. -/
def Names (model : Text) (settings : Option Fields) : Prop :=
  settings.bind (Json.lookup "model") = some (.str (String.ofList model))

/-- A repetition that had a profile ran under its cell's model. -/
def Fits (result : EvalResult) : Prop := ∀ settings, result.ranUnder = some settings → Names result.cell.2.1 settings

/-- The profile of a job is for its model. -/
def Right (jobs : List Job) (profiles : List (Text × Profile)) : Prop :=
  ∀ job ∈ jobs, ∀ profile, Dict.get? profiles job.profile = some profile → Names job.model profile.model

/-- What the server has is right. -/
structure Sound (jobs : List Job) (s : Server) : Prop where
  right : Right jobs s.profiles
  results : ∀ result ∈ s.results, Fits result

def Stage.inHand : Stage → List Job
  | .cloning job _ => [job]
  | .running job _ _ => [job]
  | .recording job _ _ => [job]
  | _ => []

def Stage.result? : Stage → Option EvalResult
  | .recording _ _ result => some result
  | _ => none

/-- A driver that only has jobs of the matrix. -/
structure Within (jobs : List Job) (d : Driver) : Prop where
  todo : ∀ job ∈ d.todo, job ∈ jobs
  stage : ∀ job ∈ d.stage.inHand, job ∈ jobs
  result : ∀ result, d.stage.result? = some result → Fits result

/-- Models of the matrix with one slug are one. -/
def Distinct (jobs : List Job) : Prop :=
  ∀ job ∈ jobs, ∀ other ∈ jobs, deriveSlug job.model = deriveSlug other.model → job.model = other.model

instance (jobs : List Job) : Decidable (Distinct jobs) :=
  inferInstanceAs (Decidable (∀ job ∈ jobs, ∀ other ∈ jobs, deriveSlug job.model = deriveSlug other.model → job.model = other.model))

/-- Nobody else creates a profile of the matrix, but for its model. -/
def Faithful (jobs : List Job) (e : Event) : Prop :=
  ∀ name model settings, e = .create name model settings → ∀ job ∈ jobs, job.profile = name → Names job.model model

theorem right_set {profiles : List (Text × Profile)} {name : Text} {profile : Profile} (h : Right jobs profiles)
    (hname : ∀ job ∈ jobs, job.profile = name → Names job.model profile.model) :
    Right jobs (Dict.set profiles name profile) := by
  intro job hjob p hp
  rcases Dict.get?_set_cases hp with ⟨heq, rfl⟩ | ⟨-, hbefore⟩
  · exact hname job hjob heq.symm
  · exact h job hjob p hbefore

theorem right_pop {profiles : List (Text × Profile)} (h : Right jobs profiles) (name : Text) :
    Right jobs (Dict.pop profiles name) := fun job hjob p hp => h job hjob p (Dict.get?_pop_some hp).2

/-- A job's profile, and that of no job of another model, is what is cloned for it. -/
theorem right_clone {profiles : List (Text × Profile)} (hdistinct : Distinct jobs) (h : Right jobs profiles) {job : Job}
    (hjob : job ∈ jobs) (src : Profile) : Right jobs (Dict.set profiles job.profile (cloneOf job src)) := by
  refine right_set h fun other hother heq => ?_
  rw [hdistinct other hother job hjob (evalProfileName_inj heq).2]
  exact Json.lookup_setField_self "model" (.str (String.ofList job.model)) (src.model.getD [])

theorem Within.proceed {d : Driver} (h : ∀ job ∈ d.todo, job ∈ jobs) : Within jobs (proceed d) := by
  unfold Matrix.proceed
  split
  · rename_i job reps rest hnext
    obtain ⟨hjob, hrest, -, -⟩ := next_some hnext
    exact ⟨fun other ho => h other (hrest other ho), List.forall_mem_singleton.mpr (h job hjob), by rintro _ ⟨⟩⟩
  · refine ⟨List.forall_mem_nil _, ?_, ?_⟩
    · cases d.created <;> exact List.forall_mem_nil _
    · cases d.created <;> rintro _ ⟨⟩

theorem Within.proceedRep {d : Driver} {job : Job} (h : ∀ job ∈ d.todo, job ∈ jobs) (hjob : ∀ other ∈ [job], other ∈ jobs)
    (reps : List Nat) : Within jobs (proceedRep d job reps) := by
  cases reps with
  | nil => exact Within.proceed h
  | cons rep reps => exact ⟨h, hjob, by rintro _ ⟨⟩⟩

@[simp] theorem track_todo (d : Driver) (name : Text) : (track d name).todo = d.todo := by
  unfold track
  split <;> rfl

theorem Within.deleting {d : Driver} (h : Within jobs d) (names : List Text) :
    Within jobs { d with stage := closing names, tries := 0 } := by
  cases names with
  | nil => exact ⟨h.todo, List.forall_mem_nil _, by rintro _ ⟨⟩⟩
  | cons name names => exact ⟨h.todo, List.forall_mem_nil _, by rintro _ ⟨⟩⟩

theorem Within.call {s t : Server} {d : Driver} {next : Option Driver} (hdistinct : Distinct jobs)
    (hs : Sound jobs s) (h : Within jobs d) (ha : Answers d s t next) :
    Sound jobs t ∧ Within jobs d ∧ ∀ d', next = some d' → Within jobs d' := by
  have hjobs := h.stage
  cases ha with
  | fetched _ => exact ⟨hs, h, goes (Within.proceed h.todo)⟩
  | reused hstage =>
    rw [hstage] at hjobs
    exact ⟨hs, h, goes (Within.proceedRep h.todo hjobs _)⟩
  | noBase _ => exact ⟨hs, h, goes (Within.proceed h.todo)⟩
  | @cloned job reps hstage src =>
    rw [hstage] at hjobs
    have hjob := hjobs job List.mem_cons_self
    refine ⟨⟨right_clone hdistinct hs.right hjob src, hs.results⟩, h, goes (Within.proceedRep ?_ hjobs _)⟩
    rw [track_todo]
    exact h.todo
  | idle _ => exact ⟨hs, h, stops⟩
  | @recorded job reps result hstage _ _ =>
    rw [hstage] at hjobs
    have hresult : Fits result := h.result result (by rw [hstage]; rfl)
    exact ⟨⟨hs.right, List.forall_mem_append.mpr ⟨hs.results, List.forall_mem_singleton.mpr hresult⟩⟩, h,
      goes (Within.proceedRep h.todo hjobs _)⟩
  | @refused job reps result hstage =>
    rw [hstage] at hjobs
    exact ⟨hs, h, goes (Within.proceedRep (d := refuse d [result.cell]) h.todo hjobs _)⟩
  | @deleted name names _ profile _ => exact ⟨⟨right_pop hs.right name, hs.results⟩, h, goes (h.deleting names)⟩
  | @absent name names _ => exact ⟨hs, h, goes (h.deleting names)⟩
  | finished _ _ => exact ⟨⟨hs.right, hs.results⟩, h, stops⟩
  | settled _ => exact ⟨hs, h, stops⟩

theorem models_rule (hdistinct : Distinct jobs) :
    Rule jobs (fun _ e => Faithful jobs e) (Sound jobs) fun _ d => Within jobs d where
  fresh _ _ := ⟨fun _ hj => hj, List.forall_mem_nil _, by rintro _ ⟨⟩⟩
  call _ _ _ _ hs h ha := h.call hdistinct hs ha
  again _ _ _ h := ⟨h.todo, h.stage, h.result⟩
  ran s d job rep reps verdict hs h hstage := by
    have hjobs := h.stage
    rw [hstage] at hjobs
    refine ⟨h.todo, hjobs, ?_⟩
    rintro _ ⟨⟩ settings hran
    obtain ⟨profile, hprofile, rfl⟩ := Option.map_eq_some_iff.mp hran
    exact hs.right job (hjobs job List.mem_cons_self) profile hprofile
  create _ name model settings hs h hfaithful :=
    ⟨⟨right_set hs.right fun job hjob heq => hfaithful name model settings rfl job hjob heq, hs.results⟩, h⟩
  delete _ name hs := ⟨⟨right_pop hs.right name, hs.results⟩, fun _ h => h⟩

/-- With different slugs, and the profiles of the matrix left as they are, each result is one of
    its cell's model. -/
theorem ran_under_model {s s' : State} {es : List Event} (hdistinct : Distinct jobs) (hstart : Start s)
    (hright : Right jobs s.server.profiles) (hfaithful : ∀ e ∈ es, Faithful jobs e) (hrun : (machine jobs).exec s es = some s') :
    ∀ result ∈ s'.server.results, Fits result := by
  have hholds : Holds (Sound jobs) (fun _ d => Within jobs d) s := by
    refine ⟨⟨hright, ?_⟩, fun d hd => ?_⟩
    · rw [hstart.results]
      exact List.forall_mem_nil _
    · rw [hstart.driver] at hd
      cases hd
  exact (Machine.exec_inv (fun a e b ha he (hst : step jobs a e = some b) => (models_rule hdistinct).step ha he hst) hholds
    hfaithful hrun).server.results

/-! ## Two runs -/

/-- Somebody has a profile under the name of one of two tasks; the driver creates the other and
    deletes it. -/
def shared : State :=
  ⟨⟨[("base".toList, ⟨none, [], .others⟩), ("eval--a--m".toList, ⟨none, [], .others⟩)], [], false, [], []⟩, none⟩

def sharedJobs : List Job := jobsOf ["M".toList] [⟨"a".toList, "base".toList, 1⟩, ⟨"b".toList, "base".toList, 1⟩]

theorem shared_start : Start shared := ⟨rfl, rfl, rfl, rfl⟩

def sharedEvents : List Event :=
  [.start, .answered true, .answered true, .ran "pass", .answered true, .answered true, .create "eval--c--m".toList none [],
    .ran "pass", .answered true, .lost true true, .answered true]

theorem shared_run :
    ∃ s, (machine sharedJobs).ReachIf (fun s e => apart s e = true) s ∧
      s.server.profiles.map (·.1) = ["base".toList, "eval--a--m".toList, "eval--c--m".toList] ∧ s.server.deleted = [.driver] ∧
      ∀ owner ∈ s.server.deleted, owner = .driver := by
  have hapart : ∀ p ∈ (machine sharedJobs).trace shared sharedEvents, apart p.1 p.2 = true := List.all_eq_true.mp (by decide)
  obtain ⟨s, hs, hprofiles, hdeleted⟩ : ∃ s, (machine sharedJobs).exec shared sharedEvents = some s ∧
      s.server.profiles.map (·.1) = ["base".toList, "eval--a--m".toList, "eval--c--m".toList] ∧ s.server.deleted = [.driver] :=
    ⟨_, rfl, rfl, rfl⟩
  have hreach : (machine sharedJobs).ReachIf (fun s e => apart s e = true) s :=
    Machine.ReachIf.exec (.init shared_start) hapart hs
  exact ⟨s, hreach, hprofiles, hdeleted, others_kept hreach⟩

def twoModels : List Job := jobsOf ["M".toList, "N".toList] [⟨"a".toList, "base".toList, 1⟩]

/-- A repetition under each of two models. -/
def twoEvents : List Event :=
  [.start, .answered true, .answered true, .ran "pass", .answered true, .answered true, .ran "pass", .answered true]

def isCreate : Event → Bool
  | .create _ _ _ => true
  | _ => false

theorem two_models_run :
    ∃ s, (machine twoModels).exec served twoEvents = some s ∧ s.server.results.length = 2 ∧ ∀ result ∈ s.server.results, Fits result := by
  have hdistinct : Distinct twoModels := by decide
  have hright : Right twoModels served.server.profiles := by
    have hnone : ∀ job ∈ twoModels, (Dict.get? served.server.profiles job.profile).isNone = true := List.all_eq_true.mp (by decide)
    intro job hjob profile hprofile
    have hno := hnone job hjob
    rw [hprofile] at hno
    cases hno
  have hfaithful : ∀ e ∈ twoEvents, Faithful twoModels e := by
    have hcreate : ∀ e ∈ twoEvents, isCreate e = false := List.forall_iff_forall_mem.mp ⟨rfl, rfl, rfl, rfl, rfl, rfl, rfl, rfl⟩
    rintro e he name model settings rfl
    cases hcreate _ he
  obtain ⟨s, hs, hlength⟩ : ∃ s, (machine twoModels).exec served twoEvents = some s ∧ s.server.results.length = 2 := ⟨_, rfl, rfl⟩
  exact ⟨s, hs, hlength, ran_under_model hdistinct served_start hright hfaithful hs⟩

end Errand.Evals.Matrix
