import DailyScheduler.Model.QueueViews
import DailyScheduler.Model.Sample
import DailyScheduler.Queues.Dequeue

set_option autoImplicit false

/-! # Browsing a registry

Each page of a registry takes the names out of it that have no record, and this moves the names behind
them to earlier pages. Between two requests the clock goes on and others may do anything that leaves the
registry and the records of its names alone.
-/

namespace DailyScheduler.QueueViews

open AtomicProg

variable {env : Env} {p : Nat} {r : Registry}

/-- The names of a registry, once what has expired is out of it. -/
def listed (r : Registry) (w : World) : List JobName :=
  ((r.cleaned none w).registry r.queue r.kind).members

/-- The names on the page after `i` pages. -/
def onPage (p : Nat) (r : Registry) (w : World) (i : Nat) : List JobName :=
  ((listed r w).drop (p * i)).take p

/-- The names of the page for which there is no record. -/
def gone (p : Nat) (r : Registry) (w : World) (i : Nat) : List JobName :=
  (onPage p r w i).filter fun n => !w.jobExists n

/-! ## One request -/

/-- What has expired is taken out once. -/
theorem cleaned_cleaned (r : Registry) (w : World) :
    r.cleaned none (r.cleaned none w) = r.cleaned none w := by
  by_cases h : r.expires = true
  · have htwice : (((r.cleaned none w).registry r.queue r.kind).removeRangeByScore 0
          (currentTimestamp w.now)).entries
        = ((r.cleaned none w).registry r.queue r.kind).entries := by
      simp [Registry.cleaned, h, World.zremrangebyscore, World.registry_setRegistry,
        Registry.cleanupScore, SortedSet.removeRangeByScore, SortedSet.filter]
    conv => lhs; rw [Registry.cleaned, if_pos h, World.zremrangebyscore]
    refine setRegistry_self r.queue (r.cleaned none w) r.kind ?_
    rw [← htwice, Registry.cleanupScore, Registry.cleaned_now]
  · simp [Registry.cleaned, h]

theorem run_removeAll (l : List JobName) (w : World) :
    (Prog.forEach l r.delete).run w
      = ⟨.ok (), l.foldl (fun w n => w.zrem r.queue r.kind n) w, []⟩ := by
  induction l generalizing w with
  | nil => rfl
  | cons n l ih =>
      rw [Prog.forEach, Prog.run_bind, Registry.run_delete, Prog.Outcome.andThen_ok, ih]
      rfl

/-- `removeJobNames` after a `get_many` that went well. -/
theorem removeJobNames_map {w : World} {names : List JobName}
    (h : ∀ n ∈ names, w.jobs.find? n = none ∨ ∃ j, JobModel.fetch env w n = some j) :
    removeJobNames names (names.map (JobModel.fetch env w))
      = names.filter fun n => !w.jobExists n := by
  induction names with
  | nil => rfl
  | cons n l ih =>
      have htail := ih fun m hm => h m (List.mem_cons_of_mem n hm)
      unfold removeJobNames at htail ⊢
      rw [List.map_cons, List.zip_cons_cons, List.filterMap_cons, htail, List.filter_cons]
      rcases h n List.mem_cons_self with hnone | ⟨j, hj⟩
      · have hfetch : JobModel.fetch env w n = none := by
          rw [JobModel.fetch, hnone]
          rfl
        have hexists : w.jobExists n = false := (TtlMap.contains_eq_false_iff _ _).2 hnone
        simp [hfetch, hexists]
      · obtain ⟨v, hv, -⟩ := JobModel.loadedFrom_of_fetch hj
        have hexists : w.jobExists n = true := (TtlMap.contains_iff _ _).2 ⟨v, hv⟩
        simp [hj, hexists]

/-- The names that a request reads. -/
theorem run_all_page (hp : 0 < p) (i : Nat) (w : World) :
    (r.all (p * (((i + 1 : Nat) : Int) - 1)) (p * (((i + 1 : Nat) : Int) - 1) + p - 1)).run w
      = ⟨.ok (onPage p r w i), r.cleaned none w, []⟩ := by
  have hstart : (p : Int) * (((i + 1 : Nat) : Int) - 1) = ((p * i : Nat) : Int) := by
    rw [Int.natCast_mul]
    congr 1
    omega
  have hstop : ((p * i : Nat) : Int) + p - 1 = ((p * i + p - 1 : Nat) : Int) := by omega
  rw [Registry.run_all, hstart, hstop, SortedSet.range_natCast]
  have hlen : p * i + p - 1 + 1 - p * i = p := by omega
  rw [hlen, onPage, listed, SortedSet.members, List.map_take, List.map_drop]

/-- The world after a request that went well. -/
def afterPage (p : Nat) (r : Registry) (w : World) (i : Nat) : World :=
  (gone p r w i).foldl (fun w n => w.zrem r.queue r.kind n) (r.cleaned none w)

/-- A request: an exception of `get_many` is its own, and otherwise it shows the records of its page. -/
theorem run_getRegistryJobList (hp : 0 < p) (i : Nat) (w : World) :
    (getRegistryJobList env p r (i + 1 : Nat)).run w
      = match JobModel.deserializeAll env ((onPage p r w i).map fun n => (n, w.jobs.find? n)) with
        | .error x => ⟨.error x, r.cleaned none w, []⟩
        | .ok _ => ⟨.ok ((onPage p r w i).filterMap (JobModel.fetch env w), (listed r w).length,
              List.range' 1 (Paging.pages p (listed r w).length)),
            afterPage p r w i, []⟩ := by
  have hlength : ((r.cleaned none w).registry r.queue r.kind).entries.length = (listed r w).length := by
    rw [listed, SortedSet.members, List.length_map]
  rw [getRegistryJobList, Prog.run_bind, Registry.run_count, Prog.Outcome.andThen_ok, hlength]
  by_cases hzero : (listed r w).length = 0
  · -- an empty registry has no pages
    have hnil : onPage p r w i = [] := by
      rw [onPage, List.length_eq_zero_iff.1 hzero, List.drop_nil, List.take_nil]
    have hpages : Paging.pages p 0 = 0 := Nat.div_eq_of_lt (by omega)
    simp [hzero, hpages, hnil, gone, afterPage, JobModel.deserializeAll]
  · have hall := run_all_page (r := r) hp i (r.cleaned none w)
    have hlisted : listed r (r.cleaned none w) = listed r w := by rw [listed, cleaned_cleaned, listed]
    rw [cleaned_cleaned, onPage, hlisted, ← onPage] at hall
    have hmany := JobModel.run_getMany env (onPage p r w i) (r.cleaned none w)
    rw [Registry.cleaned_jobs] at hmany
    rw [if_neg hzero, Prog.run_bind, hall, Prog.Outcome.andThen_ok, Prog.run_bind, hmany]
    cases hjs : JobModel.deserializeAll env ((onPage p r w i).map fun n => (n, w.jobs.find? n)) with
    | error x => rfl
    | ok js =>
        obtain ⟨rfl, hload⟩ := JobModel.deserializeAll_inv hjs
        rw [Prog.Outcome.andThen_ok, Prog.run_bind, run_removeAll, removeJobNames_map hload, ← gone,
          Prog.Outcome.andThen_ok, List.filterMap_map]
        rfl

/-- A request leaves every name in the registry but those of its page without a record. -/
theorem members_afterPage (i : Nat) (w : World) :
    ((afterPage p r w i).registry r.queue r.kind).members
      = Paging.without w.jobExists (onPage p r w i) (listed r w) := by
  unfold afterPage Paging.without
  rw [SortedSet.members, World.entries_zremAll, listed, SortedSet.members, List.filter_map]
  congr 1
  refine List.filter_congr fun e _ => ?_
  simp [gone]

/-! ## A run of requests -/

/-- What may happen between two requests: the registry and the records of `names` are left alone, and it
is not later than `last` afterwards. -/
structure Meanwhile (r : Registry) (names : List JobName) (last : Int) (w w' : World) : Prop where
  registry : w'.registry r.queue r.kind = w.registry r.queue r.kind
  records : ∀ n ∈ names, w'.jobs.find? n = w.jobs.find? n
  now : w.now ≤ last → w'.now ≤ last

/-- Nothing in the registry expires until `last`. -/
def Lasting (r : Registry) (last : Int) (w : World) : Prop :=
  r.expires = true → ∀ e ∈ (w.registry r.queue r.kind).entries,
    ¬(0 ≤ e.1 ∧ e.1 ≤ currentTimestamp last)

/-- The state before each request but the first: the names are among those listed at first, their records
are as they were, and none expires. -/
structure Steady (r : Registry) (base : World) (last : Int) (w : World) : Prop where
  names : ∀ n ∈ (w.registry r.queue r.kind).members, n ∈ listed r base
  records : ∀ n ∈ listed r base, w.jobs.find? n = base.jobs.find? n
  lasting : Lasting r last w
  now : w.now ≤ last

section Run

variable {base w : World} {last : Int}

theorem listed_eq_members (h : Lasting r last w) (hnow : w.now ≤ last) :
    listed r w = (w.registry r.queue r.kind).members := by
  unfold listed SortedSet.members Registry.cleaned
  by_cases he : r.expires = true
  · rw [if_pos he, World.zremrangebyscore, World.registry_setRegistry, if_pos ⟨rfl, rfl⟩]
    congr 1
    refine List.filter_eq_self.2 fun e hmem => ?_
    have hbound := currentTimestamp_mono hnow
    have hlast := h he e hmem
    refine decide_eq_true fun hexpired => hlast ⟨hexpired.1, ?_⟩
    exact Int.le_trans hexpired.2 hbound
  · rw [if_neg he]

theorem entries_afterPage_subset (i : Nat) (w : World) :
    ((afterPage p r w i).registry r.queue r.kind).entries
      ⊆ ((r.cleaned none w).registry r.queue r.kind).entries := by
  rw [afterPage, World.entries_zremAll]
  exact List.filter_subset_self ..

/-- A request, and what others do after it, keep the state steady. -/
theorem steady_next {i : Nat} (hlasting : Lasting r last (r.cleaned none w)) (hnow : w.now ≤ last)
    (hnames : ∀ n ∈ listed r w, n ∈ listed r base)
    (hrecords : ∀ n ∈ listed r base, w.jobs.find? n = base.jobs.find? n) {w' : World}
    (h : Meanwhile r (listed r base) last (afterPage p r w i) w') : Steady r base last w' where
  names := by
    rw [h.registry, members_afterPage]
    intro n hn
    exact hnames n (List.mem_of_mem_filter hn)
  records := by
    intro n hn
    rw [h.records n hn, afterPage, World.jobs_zremAll, Registry.cleaned_jobs, hrecords n hn]
  lasting := by
    intro he e hmem
    rw [h.registry] at hmem
    exact hlasting he e (entries_afterPage_subset i w hmem)
  now := by
    refine h.now ?_
    rw [afterPage, World.now_zremAll, Registry.cleaned_now]
    exact hnow

theorem Steady.listed (h : Steady r base last w) :
    QueueViews.listed r w = (w.registry r.queue r.kind).members :=
  listed_eq_members h.lasting h.now

theorem Steady.next {i : Nat} (h : Steady r base last w) {w' : World}
    (h' : Meanwhile r (QueueViews.listed r base) last (afterPage p r w i) w') :
    Steady r base last w' := by
  refine steady_next (i := i) ?_ h.now ?_ h.records h'
  · intro he e hmem
    refine h.lasting he e ?_
    rw [Registry.cleaned, if_pos he, World.zremrangebyscore, World.registry_setRegistry,
      if_pos ⟨rfl, rfl⟩] at hmem
    exact List.mem_of_mem_filter hmem
  · rw [h.listed]
    exact h.names

/-- The names of the jobs that a page shows. -/
theorem names_shown {names : List JobName}
    (h : ∀ n ∈ names, w.jobs.find? n = none ∨ ∃ j, JobModel.fetch env w n = some j) :
    (names.filterMap (JobModel.fetch env w)).map JobModel.name = names.filter w.jobExists := by
  induction names with
  | nil => rfl
  | cons n l ih =>
      have htail := ih fun m hm => h m (List.mem_cons_of_mem n hm)
      rw [List.filterMap_cons, List.filter_cons]
      rcases h n List.mem_cons_self with hnone | ⟨j, hj⟩
      · have hfetch : JobModel.fetch env w n = none := by
          rw [JobModel.fetch, hnone]
          rfl
        have hexists : w.jobExists n = false := (TtlMap.contains_eq_false_iff _ _).2 hnone
        simpa [hfetch, hexists] using htail
      · obtain ⟨v, hv, -⟩ := JobModel.loadedFrom_of_fetch hj
        have hexists : w.jobExists n = true := (TtlMap.contains_iff _ _).2 ⟨v, hv⟩
        simpa [hj, hexists, JobModel.name_of_fetch hj] using htail

/-- The records of the listed names load. -/
def AllLoad (r : Registry) (base : World) : Prop :=
  ∀ n ∈ listed r base, base.jobExists n = true → base.loadable n

/-- Where the records load, a page finds them in order. -/
theorem page_in_order (env : Env) (p : Nat) (hload : AllLoad r base)
    (hnames : ∀ n ∈ listed r w, n ∈ listed r base)
    (hrecords : ∀ n ∈ listed r base, w.jobs.find? n = base.jobs.find? n) (i : Nat) :
    ∀ n ∈ onPage p r w i, w.jobs.find? n = none ∨ ∃ j, JobModel.fetch env w n = some j := by
  intro n hn
  have hlisted := hnames n (List.mem_of_mem_drop (List.mem_of_mem_take hn))
  rw [JobModel.fetch, hrecords n hlisted]
  cases hv : base.jobs.find? n with
  | none => exact .inl rfl
  | some v =>
      right
      have hn := hload n hlisted ((TtlMap.contains_iff _ _).2 ⟨v, hv⟩)
      have hfetch : JobModel.fetch env base n ≠ none := fun hnone =>
        JobModel.fetch_eq_none_iff.1 hnone hn
      obtain ⟨j, hj⟩ := Option.ne_none_iff_exists'.1 hfetch
      rw [JobModel.fetch, hv] at hj
      exact ⟨j, hj⟩

theorem request_in_order (hp : 0 < p) {i : Nat}
    (h : ∀ n ∈ onPage p r w i, w.jobs.find? n = none ∨ ∃ j, JobModel.fetch env w n = some j) :
    (getRegistryJobList env p r (i + 1 : Nat)).run w
      = ⟨.ok ((onPage p r w i).filterMap (JobModel.fetch env w), (listed r w).length,
            List.range' 1 (Paging.pages p (listed r w).length)), afterPage p r w i, []⟩ := by
  obtain ⟨js, hjs⟩ := JobModel.deserializeAll_ok h
  rw [run_getRegistryJobList hp, hjs]

theorem jobExists_eq (hrecords : ∀ n ∈ listed r base, w.jobs.find? n = base.jobs.find? n)
    {n : JobName} (hn : n ∈ listed r base) : w.jobExists n = base.jobExists n :=
  World.jobExists_congr (hrecords n hn)

/-- The list of the next request, for the pages that are still to come. -/
theorem listed_next {i : Nat} {w' : World} (hnames : ∀ n ∈ listed r w, n ∈ listed r base)
    (hrecords : ∀ n ∈ listed r base, w.jobs.find? n = base.jobs.find? n)
    (h : Meanwhile r (listed r base) last (afterPage p r w i) w') (hsteady : Steady r base last w') :
    (listed r w').drop (p * (i + 1))
      = Paging.rest base.jobExists p ((listed r w).drop (p * i)) := by
  have hwithout : Paging.without w.jobExists (onPage p r w i) (listed r w)
      = Paging.without base.jobExists (onPage p r w i) (listed r w) := by
    unfold Paging.without
    refine List.filter_congr fun n hn => ?_
    rw [jobExists_eq hrecords (hnames n hn)]
  rw [hsteady.listed, h.registry, members_afterPage, hwithout]
  exact Paging.drop_without (SortedSet.members_nodup _) i

/-- The names shown on a page. -/
theorem names_onPage {i : Nat} (hnames : ∀ n ∈ listed r w, n ∈ listed r base)
    (hrecords : ∀ n ∈ listed r base, w.jobs.find? n = base.jobs.find? n)
    (horder : ∀ n ∈ onPage p r w i, w.jobs.find? n = none ∨ ∃ j, JobModel.fetch env w n = some j) :
    ((onPage p r w i).filterMap (JobModel.fetch env w)).map JobModel.name
      = (((listed r w).drop (p * i)).take p).filter base.jobExists := by
  rw [names_shown horder, onPage]
  refine List.filter_congr fun n hn => ?_
  exact jobExists_eq hrecords (hnames n (List.mem_of_mem_drop (List.mem_of_mem_take hn)))

/-- What the remaining requests show when every record loads. -/
theorem requests_ok (env : Env) (hp : 0 < p) {meanwhile : Nat → World → World}
    (hmeanwhile : ∀ i w, Meanwhile r (listed r base) last w (meanwhile i w))
    (hload : AllLoad r base) (k i : Nat) (h : Steady r base last w) :
    ∃ shown, requests env p r meanwhile (List.range' (i + 1) k) w = .ok shown
      ∧ shown.map JobModel.name = Paging.browse base.jobExists p k ((listed r w).drop (p * i)) := by
  induction k generalizing i w with
  | zero => exact ⟨[], rfl, rfl⟩
  | succ k ih =>
      have hnames : ∀ n ∈ listed r w, n ∈ listed r base := by
        rw [h.listed]
        exact h.names
      have horder := page_in_order env p hload hnames h.records i
      have hgap := hmeanwhile (i + 1) (afterPage p r w i)
      have hnext := h.next hgap
      obtain ⟨shown, hrun, hshown⟩ := ih (i + 1) hnext
      rw [listed_next hnames h.records hgap hnext] at hshown
      refine ⟨(onPage p r w i).filterMap (JobModel.fetch env w) ++ shown, ?_, ?_⟩
      · rw [List.range'_succ, requests, request_in_order hp horder]
        dsimp only
        rw [hrun]
        rfl
      · rw [List.map_append, hshown, names_onPage hnames h.records horder]
        rfl

theorem map_append_eq_ok {x : List JobModel} {a : Except PyError (List JobModel)}
    {l : List JobModel} (h : a.map (x ++ ·) = .ok l) : ∃ l', a = .ok l' ∧ l = x ++ l' := by
  cases a with
  | error e => cases h
  | ok l' =>
      cases h
      exact ⟨l', rfl, rfl⟩

/-- A request that answers has done its whole work. -/
theorem request_inv (hp : 0 < p) {i : Nat} {a : List JobModel × Nat × List Nat}
    (h : ((getRegistryJobList env p r (i + 1 : Nat)).run w).val = .ok a) :
    (getRegistryJobList env p r (i + 1 : Nat)).run w
      = ⟨.ok ((onPage p r w i).filterMap (JobModel.fetch env w), (listed r w).length,
            List.range' 1 (Paging.pages p (listed r w).length)), afterPage p r w i, []⟩ := by
  rw [run_getRegistryJobList hp] at h ⊢
  cases hjs : JobModel.deserializeAll env ((onPage p r w i).map fun n => (n, w.jobs.find? n)) with
  | error x =>
      rw [hjs] at h
      cases h
  | ok js => rfl

/-- What a page shows are records of listed names. -/
theorem loadable_of_page {i : Nat} (hnames : ∀ n ∈ listed r w, n ∈ listed r base)
    (hrecords : ∀ n ∈ listed r base, w.jobs.find? n = base.jobs.find? n) {j : JobModel}
    (hj : j ∈ (onPage p r w i).filterMap (JobModel.fetch env w)) : base.loadable j.name := by
  obtain ⟨n, hn, hfetch⟩ := List.mem_filterMap.1 hj
  have hlisted := hnames n (List.mem_of_mem_drop (List.mem_of_mem_take hn))
  rw [JobModel.fetch, hrecords n hlisted, ← JobModel.fetch] at hfetch
  rw [JobModel.name_of_fetch hfetch]
  by_contra hnot
  rw [JobModel.fetch_eq_none_iff.2 hnot] at hfetch
  cases hfetch

theorem loadable_of_requests (hp : 0 < p) {meanwhile : Nat → World → World}
    (hmeanwhile : ∀ i w, Meanwhile r (listed r base) last w (meanwhile i w)) (k i : Nat)
    (h : Steady r base last w) {shown : List JobModel}
    (hrun : requests env p r meanwhile (List.range' (i + 1) k) w = .ok shown) :
    ∀ j ∈ shown, base.loadable j.name := by
  induction k generalizing i w shown with
  | zero =>
      cases hrun
      simp
  | succ k ih =>
      have hnames : ∀ n ∈ listed r w, n ∈ listed r base := by
        rw [h.listed]
        exact h.names
      rw [List.range'_succ, requests] at hrun
      cases hval : ((getRegistryJobList env p r (i + 1 : Nat)).run w).val with
      | error x =>
          rw [hval] at hrun
          cases hrun
      | ok a =>
          rw [request_inv hp hval] at hrun
          obtain ⟨later, hlater, rfl⟩ := map_append_eq_ok hrun
          intro j hj
          rcases List.mem_append.1 hj with hj | hj
          · exact loadable_of_page hnames h.records hj
          · exact ih (i + 1) (h.next (hmeanwhile (i + 1) _)) hlater j hj

/-- The first request keeps its promise to the later ones. -/
theorem steady_first (hnow : w.now ≤ last) (hlasting : Lasting r last (r.cleaned none w)) {w' : World}
    (h : Meanwhile r (listed r w) last (afterPage p r w 0) w') : Steady r w last w' :=
  steady_next (i := 0) hlasting hnow (fun _ hn => hn) (fun _ _ => rfl) h

theorem loadable_of_browse (hp : 0 < p) {meanwhile : Nat → World → World} (hnow : w.now ≤ last)
    (hlasting : Lasting r last (r.cleaned none w))
    (hmeanwhile : ∀ i w', Meanwhile r (listed r w) last w' (meanwhile i w')) {shown : List JobModel}
    (hrun : browse env p r meanwhile w = .ok shown) : ∀ j ∈ shown, w.loadable j.name := by
  have hgap := hmeanwhile 1 (afterPage p r w 0)
  cases hval : ((getRegistryJobList env p r 1).run w).val with
  | error x =>
      rw [browse, hval] at hrun
      cases hrun
  | ok a =>
      have hrequest : (getRegistryJobList env p r 1).run w = _ := request_inv (i := 0) hp hval
      rw [browse, hrequest] at hrun
      obtain ⟨later, hlater, rfl⟩ := map_append_eq_ok hrun
      rw [List.tail_range'] at hlater
      intro j hj
      rcases List.mem_append.1 hj with hj | hj
      · exact loadable_of_page (fun _ hn => hn) (fun _ _ => rfl) hj
      · exact loadable_of_requests hp hmeanwhile _ 1 (steady_first hnow hlasting hgap) hlater j hj

/-- All pages, when every record loads. -/
theorem browse_ok (env : Env) (hp : 0 < p) {meanwhile : Nat → World → World} (hnow : w.now ≤ last)
    (hlasting : Lasting r last (r.cleaned none w))
    (hmeanwhile : ∀ i w', Meanwhile r (listed r w) last w' (meanwhile i w')) (hload : AllLoad r w) :
    ∃ shown, browse env p r meanwhile w = .ok shown
      ∧ shown.map JobModel.name
        = Paging.browse w.jobExists p (Paging.pages p (listed r w).length) (listed r w) := by
  have horder := page_in_order env p hload (fun _ hn => hn) (fun _ _ => rfl) 0
  have hnames := names_onPage (fun _ hn => hn) (fun _ _ => rfl) horder
  have hgap := hmeanwhile 1 (afterPage p r w 0)
  have hsteady := steady_first hnow hlasting hgap
  have hrequest : (getRegistryJobList env p r 1).run w = _ := request_in_order hp horder
  rw [Nat.mul_zero, List.drop_zero] at hnames
  obtain ⟨shown, hrun, hshown⟩ := requests_ok env hp hmeanwhile hload
    (Paging.pages p (listed r w).length - 1) 1 hsteady
  have hlist := listed_next (fun _ hn => hn) (fun _ _ => rfl) hgap hsteady
  rw [Nat.mul_zero, List.drop_zero] at hlist
  rw [hlist] at hshown
  refine ⟨(onPage p r w 0).filterMap (JobModel.fetch env w) ++ shown, ?_, ?_⟩
  · rw [browse, hrequest]
    dsimp only
    rw [List.tail_range', hrun]
    rfl
  · rw [List.map_append, hnames, hshown]
    cases hpages : Paging.pages p (listed r w).length with
    | succ k => rfl
    | zero =>
        have hle := Paging.le_pages hp (listed r w).length
        rw [hpages] at hle
        have hnil : listed r w = [] := List.length_eq_zero_iff.1 (by omega)
        simp [hnil, Paging.browse]

/-- For every registry and every page size: the pages announced by the first request show every job that
has a record exactly once if and only if the records load and no job slips past a page. -/
theorem browse_iff (hp : 0 < p) {meanwhile : Nat → World → World} (hnow : w.now ≤ last)
    (hlasting : Lasting r last (r.cleaned none w))
    (hmeanwhile : ∀ i w', Meanwhile r (listed r w) last w' (meanwhile i w')) :
    (∃ shown, browse env p r meanwhile w = .ok shown
        ∧ ∀ n ∈ listed r w, w.jobExists n = true → (shown.map JobModel.name).count n = 1)
      ↔ AllLoad r w
        ∧ Paging.Clear w.jobExists p (Paging.pages p (listed r w).length) (listed r w) := by
  have hnodup : (listed r w).Nodup := SortedSet.members_nodup _
  have hclear := @Paging.forall_mem_browse_iff _ w.jobExists _ _ _ hnodup
    (Paging.le_pages hp (listed r w).length)
  constructor
  · rintro ⟨shown, hrun, hall⟩
    have hload : AllLoad r w := by
      intro n hn hexists
      have hcount := hall n hn hexists
      obtain ⟨j, hj, rfl⟩ := List.mem_map.1 (List.count_pos_iff.1 (by rw [hcount]; decide))
      exact loadable_of_browse hp hnow hlasting hmeanwhile hrun j hj
    obtain ⟨shown', hrun', hnames⟩ := browse_ok env hp hnow hlasting hmeanwhile hload
    rw [hrun] at hrun'
    cases hrun'
    refine ⟨hload, hclear.1 fun n hn hexists => ?_⟩
    rw [← hnames]
    exact List.count_pos_iff.1 (by rw [hall n hn hexists]; decide)
  · rintro ⟨hload, hpast⟩
    obtain ⟨shown, hrun, hnames⟩ := browse_ok env hp hnow hlasting hmeanwhile hload
    refine ⟨shown, hrun, fun n hn hexists => ?_⟩
    rw [hnames]
    refine List.count_eq_one_of_mem ?_ (hclear.2 hpast n hn hexists)
    exact (hnodup.filter _).sublist (Paging.browse_sublist _ _)

end Run

/-- Jobs scheduled for the same time, of which `b` and `c` have a record. -/
def samplePages (l : List JobName) : World :=
  l.foldl (fun w n => w.zadd "q" .scheduled n 100) (Sample.worldWith ["b", "c"])

theorem sample_browse_iff :
    ∃ shown, browse Sample.env 2 ⟨"q", .scheduled⟩ (fun _ w => w) (samplePages ["b", "c", "d"])
        = .ok shown
      ∧ ∀ n ∈ listed ⟨"q", .scheduled⟩ (samplePages ["b", "c", "d"]),
        (samplePages ["b", "c", "d"]).jobExists n = true → (shown.map JobModel.name).count n = 1 := by
  have hsome : ∀ n ∈ listed ⟨"q", .scheduled⟩ (samplePages ["b", "c", "d"]),
      (samplePages ["b", "c", "d"]).jobExists n = true →
        (JobModel.fetch Sample.env (samplePages ["b", "c", "d"]) n).isSome = true := by
    decide +kernel
  have hload : AllLoad ⟨"q", .scheduled⟩ (samplePages ["b", "c", "d"]) := by
    intro n hn hexists
    have hfetch := hsome n hn hexists
    by_contra hnot
    rw [JobModel.fetch_eq_none_iff.2 hnot] at hfetch
    cases hfetch
  have hnow : (samplePages ["b", "c", "d"]).now ≤ 0 := by decide
  have hlasting : Lasting ⟨"q", .scheduled⟩ 0
      (Registry.cleaned ⟨"q", .scheduled⟩ none (samplePages ["b", "c", "d"])) := by
    rintro ⟨⟩
  exact (browse_iff (by decide) hnow hlasting fun _ _ => ⟨rfl, fun _ _ => rfl, id⟩).2
    ⟨hload, by decide +kernel⟩

/-- `a` has no record, and the request for the first page takes it out; `c` is then on the first page,
and the second one, which was announced, is empty. -/
theorem job_slips_past :
    (browse Sample.env 2 ⟨"q", .scheduled⟩ (fun _ w => w) (samplePages ["a", "b", "c"])).toOption.map
        (List.map JobModel.name) = some ["b"]
      ∧ "c" ∈ listed ⟨"q", .scheduled⟩ (samplePages ["a", "b", "c"])
      ∧ (samplePages ["a", "b", "c"]).jobExists "c" = true := by
  decide +kernel

end DailyScheduler.QueueViews
