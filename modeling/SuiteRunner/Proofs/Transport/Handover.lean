import SuiteRunner.Transport.Session

/-! # The worker that is handed over

Requests are looked at, upgrades get through and calls for a worker end in any order. What an event
brings about depends on two things that have happened before it: which upgrade was through first, and
whether a call has succeeded. -/
namespace SuiteRunner.Transport.Reception

/-! ## Histories -/

/-- What has happened so far, with its effects. -/
abbrev History := List (Event × Effect)

def arrival? : Event → Option (Option RequestHead)
  | .arrives head => some head
  | _ => none

def completion? : Event → Option PeerId
  | .completed peer => some peer
  | _ => none

def success? : Effect → Option PeerId
  | .accepted peer => some peer
  | _ => none

/-- The heads of the requests that have come, by number. -/
def arrivals (past : History) : List (Option RequestHead) := past.filterMap (arrival? ·.1)

/-- The upgrades that got through, in this order. -/
def completions (past : History) : List PeerId := past.filterMap (completion? ·.1)

/-- The connections that were handed over. -/
def successes (past : History) : List PeerId := past.filterMap (success? ·.2)

def succeeded (past : History) : Bool := !(successes past).isEmpty

/-- What can have happened when the listener has come to a state. -/
inductive Reached : History → Reception → Prop where
  | start : Reached [] {}
  | step {past : History} {r r' : Reception} {e : Event} {effect : Effect} (h : Reached past r)
      (hstep : r.step? e = some (r', effect)) : Reached (past ++ [(e, effect)]) r'

section

variable {past before after history : History} {r r' : Reception} {e : Event} {effect : Effect}

theorem replay?_cons {es : List Event} (h : r.replay? (e :: es) = some (r', history)) :
    ∃ next effect rest, r.step? e = some (next, effect) ∧ next.replay? es = some (r', rest) ∧
      history = (e, effect) :: rest := by
  rw [replay?] at h
  obtain ⟨⟨next, effect⟩, hstep, h⟩ := Option.bind_eq_some_iff.mp h
  obtain ⟨⟨last, rest⟩, hrest, h⟩ := Option.bind_eq_some_iff.mp h
  obtain ⟨rfl, rfl⟩ := Prod.mk.inj (Option.some.inj h)
  exact ⟨next, effect, rest, hstep, hrest, rfl⟩

theorem Reached.replay {es : List Event} (hpast : Reached past r)
    (h : r.replay? es = some (r', history)) : Reached (past ++ history) r' := by
  induction es generalizing past r history with
  | nil =>
    obtain ⟨rfl, rfl⟩ := Prod.mk.inj (Option.some.inj h)
    rw [List.append_nil]
    exact hpast
  | cons e es ih =>
    obtain ⟨next, effect, rest, hstep, hrest, rfl⟩ := replay?_cons h
    have hreached := ih (hpast.step hstep) hrest
    rwa [List.append_assoc] at hreached

/-- Every event took place in a state that had been reached before it. -/
theorem Reached.split (h : Reached history r) (heq : history = before ++ (e, effect) :: after) :
    ∃ s s', Reached before s ∧ s.step? e = some (s', effect) := by
  induction h generalizing after with
  | start => simp at heq
  | step hpast hstep ih =>
    rcases List.eq_nil_or_concat after with rfl | ⟨front, x, rfl⟩
    · obtain ⟨rfl, hlast⟩ := List.append_inj' heq rfl
      obtain ⟨rfl, rfl⟩ := Prod.mk.inj (List.cons.inj hlast).1
      exact ⟨_, _, hpast, hstep⟩
    · rw [List.concat_eq_append, ← List.cons_append, ← List.append_assoc] at heq
      exact ih (List.append_inj' heq rfl).1

/-! ## One more event -/

@[simp] theorem arrivals_concat (past : History) (x : Event × Effect) :
    arrivals (past ++ [x]) = arrivals past ++ (arrival? x.1).toList := by
  cases h : arrival? x.1 <;> simp [arrivals, h]

@[simp] theorem completions_concat (past : History) (x : Event × Effect) :
    completions (past ++ [x]) = completions past ++ (completion? x.1).toList := by
  cases h : completion? x.1 <;> simp [completions, h]

@[simp] theorem successes_concat (past : History) (x : Event × Effect) :
    successes (past ++ [x]) = successes past ++ (success? x.2).toList := by
  cases h : success? x.2 <;> simp [successes, h]

theorem succeeded_eq_false_iff : succeeded past = false ↔ successes past = [] := by
  simp [succeeded]

/-- The queue that a history leaves behind: it holds the upgrade that was through first until that is
handed over, and is closed from then on. -/
def queueAfter (past : History) : Queue PeerId where
  capacity := 1
  items := if succeeded past then [] else (completions past).head?.toList
  senderGone := succeeded past

/-- What a history says about the state that it leads to. -/
structure Tally (past : History) (r : Reception) : Prop where
  queue : r.listener.upgrades = queueAfter past
  heads : r.clients.map (·.head) = arrivals past
  /-- An upgrade gets through once. -/
  done : ∀ p ∈ completions past, ∃ head, r.clients[p]? = some ⟨head, .done⟩
  nodup : (completions past).Nodup
  /-- The connection that is handed over was through first. -/
  won : successes past = [] ∨ ∃ p, successes past = [p] ∧ (completions past).head? = some p

private theorem tally_start : Tally [] {} :=
  ⟨rfl, rfl, by simp [completions], by simp [completions], .inl rfl⟩

/-- The request with a number is answered by its head and by whether a worker was handed over. -/
theorem step?_checked {p : PeerId} (h : r.step? (.checked p) = some (r', effect)) :
    ∃ head stage, r.clients[p]? = some ⟨head, .arrived⟩ ∧
      r' = { r with clients := r.clients.set p ⟨head, stage⟩ } ∧
      effect = .replied (r.listener.answer head) := by
  simp only [step?] at h
  split at h
  · next head hclient =>
    obtain ⟨rfl, rfl⟩ := Prod.mk.inj (Option.some.inj h)
    exact ⟨head, _, hclient, rfl, rfl⟩
  · cases h

theorem step?_completed {p : PeerId} (h : r.step? (.completed p) = some (r', effect)) :
    ∃ head, r.clients[p]? = some ⟨head, .upgrading⟩ ∧
      r' = ⟨(r.listener.complete p).1, r.clients.set p ⟨head, .done⟩⟩ ∧
      effect = if (r.listener.complete p).2 then .kept else .dropped := by
  simp only [step?] at h
  split at h
  · next head hclient =>
    obtain ⟨rfl, rfl⟩ := Prod.mk.inj (Option.some.inj h)
    exact ⟨head, hclient, rfl, rfl⟩
  · cases h

theorem Tally.listener (h : Tally past r) : r.listener = ⟨queueAfter past⟩ := by
  rw [← h.queue]

/-- Only the upgrade that is through first finds a place. -/
theorem Tally.complete (h : Tally past r) (p : PeerId) :
    completions past = [] ∧ successes past = [] ∧
        r.listener.complete p = (⟨{ queueAfter past with items := [p] }⟩, true) ∨
      completions past ≠ [] ∧ r.listener.complete p = (r.listener, false) := by
  rw [h.listener]
  cases hc : completions past with
  | nil =>
    have hnone : successes past = [] := by
      obtain hnone | ⟨q, -, hfirst⟩ := h.won
      · exact hnone
      · simp [hc] at hfirst
    refine .inl ⟨rfl, hnone, ?_⟩
    simp [Listener.complete, Queue.send, queueAfter, succeeded, hc, hnone]
  | cons q qs =>
    refine .inr ⟨by simp, ?_⟩
    cases hs : succeeded past <;> simp [Listener.complete, Queue.send, queueAfter, hc, hs]

/-- A call takes the upgrade that was through first, unless a call has done so before. -/
theorem Tally.accept (h : Tally past r) (window : Span) :
    succeeded past = true ∧ r.listener.accept window = (r.listener, .error .stopped) ∨
    successes past = [] ∧ completions past = [] ∧ r.listener.accept window =
      (r.listener, .error (.timedOut (.connectionTimeout window))) ∨
    ∃ p, successes past = [] ∧ (completions past).head? = some p ∧ r.listener.accept window =
      (⟨{ queueAfter past with items := [], senderGone := true }⟩, .ok p) := by
  rw [h.listener]
  cases hs : succeeded past with
  | true => exact .inl ⟨rfl, by simp [Listener.accept, Queue.receive, queueAfter, hs]⟩
  | false =>
    have hnone := succeeded_eq_false_iff.mp hs
    cases hc : completions past with
    | nil =>
      exact .inr (.inl ⟨hnone, rfl, by simp [Listener.accept, Queue.receive, queueAfter, hs, hc]⟩)
    | cons p ps =>
      exact .inr (.inr ⟨p, hnone, rfl, by
        simp [Listener.accept, Queue.receive, Queue.close, queueAfter, hs, hc]⟩)

/-- Nothing that concerns the queue has happened. -/
theorem Tally.quiet (h : Tally past r) {x : Event × Effect} (hc : completion? x.1 = none)
    (hs : success? x.2 = none) (hqueue : r'.listener = r.listener)
    (hheads : r'.clients.map (·.head) = arrivals past ++ (arrival? x.1).toList)
    (hdone : ∀ (p : PeerId) head, r.clients[p]? = some ⟨head, .done⟩ →
      r'.clients[p]? = some ⟨head, .done⟩) : Tally (past ++ [x]) r' := by
  have hcompletions : completions (past ++ [x]) = completions past := by simp [hc]
  have hsuccesses : successes (past ++ [x]) = successes past := by simp [hs]
  refine ⟨?_, by rw [hheads, arrivals_concat], ?_, ?_, ?_⟩
  · rw [hqueue, h.queue, queueAfter, queueAfter, succeeded, succeeded, hcompletions, hsuccesses]
  · rw [hcompletions]
    intro p hp
    obtain ⟨head, hclient⟩ := h.done p hp
    exact ⟨head, hdone p head hclient⟩
  · rw [hcompletions]
    exact h.nodup
  · rw [hcompletions, hsuccesses]
    exact h.won

theorem Tally.arrives (h : Tally past r) (head : Option RequestHead) :
    Tally (past ++ [(.arrives head, .came)]) { r with clients := r.clients ++ [{ head }] } := by
  refine h.quiet rfl rfl rfl (by simp [h.heads, arrival?]) ?_
  intro p head hclient
  have hlt := (List.getElem?_eq_some_iff.mp hclient).1
  simp only
  rw [List.getElem?_append_left hlt]
  exact hclient

theorem heads_set {clients : List Client} {p : PeerId} {head : Option RequestHead}
    {stage stage' : Stage} (h : clients[p]? = some ⟨head, stage⟩) :
    (clients.set p ⟨head, stage'⟩).map (·.head) = clients.map (·.head) := by
  have hlt := (List.getElem?_eq_some_iff.mp h).1
  apply List.ext_getElem?
  intro q
  rw [List.getElem?_map, List.getElem?_map]
  by_cases hq : p = q
  · subst hq
    rw [List.getElem?_set_self hlt, h]
    rfl
  · rw [List.getElem?_set_ne hq]

theorem Tally.checked (h : Tally past r) {p : PeerId} {head : Option RequestHead} {stage : Stage}
    (hclient : r.clients[p]? = some ⟨head, .arrived⟩) (reply : Reply) :
    Tally (past ++ [(.checked p, .replied reply)])
      { r with clients := r.clients.set p ⟨head, stage⟩ } := by
  refine h.quiet rfl rfl rfl ?_ ?_
  · simp only [heads_set hclient, h.heads, arrival?, Option.toList_none, List.append_nil]
  · intro q head' hdone
    have hne : p ≠ q := by
      rintro rfl
      simp [hclient] at hdone
    rw [List.getElem?_set_ne hne]
    exact hdone

theorem Tally.completed (h : Tally past r) {p : PeerId} {head : Option RequestHead}
    (hclient : r.clients[p]? = some ⟨head, .upgrading⟩) (effect : Effect)
    (heffect : success? effect = none) :
    Tally (past ++ [(.completed p, effect)])
      ⟨(r.listener.complete p).1, r.clients.set p ⟨head, .done⟩⟩ := by
  have hnew : p ∉ completions past := by
    intro hp
    obtain ⟨head', hdone⟩ := h.done p hp
    simp [hclient] at hdone
  have hcompletions : completions (past ++ [(.completed p, effect)]) = completions past ++ [p] := by
    simp [completion?]
  have hsuccesses : successes (past ++ [(.completed p, effect)]) = successes past := by
    simp [heffect]
  refine ⟨?_, ?_, ?_, ?_, ?_⟩
  · obtain ⟨hnone, hopen, hcomplete⟩ | ⟨hsome, hcomplete⟩ := h.complete p
    · simp [hcomplete, queueAfter, succeeded, hcompletions, hsuccesses, hnone, hopen]
    · obtain ⟨q, qs, hq⟩ := List.exists_cons_of_ne_nil hsome
      rw [hcomplete, h.queue]
      simp [queueAfter, succeeded, hcompletions, hsuccesses, hq]
  · simp only [heads_set hclient, h.heads]
    simp [arrival?]
  · rw [hcompletions]
    intro q hq
    rcases List.mem_append.mp hq with hq | hq
    · obtain ⟨head', hdone⟩ := h.done q hq
      have hne : p ≠ q := fun heq => hnew (heq ▸ hq)
      exact ⟨head', by simp only [List.getElem?_set_ne hne, hdone]⟩
    · obtain rfl := List.mem_singleton.mp hq
      have hlt := (List.getElem?_eq_some_iff.mp hclient).1
      exact ⟨head, by simp [hlt]⟩
  · rw [hcompletions]
    refine List.nodup_append.mpr ⟨h.nodup, by simp, ?_⟩
    rintro q hq q' hq' rfl
    exact hnew (List.mem_singleton.mp hq' ▸ hq)
  · rw [hcompletions, hsuccesses]
    obtain hnone | ⟨q, hq, hfirst⟩ := h.won
    · exact .inl hnone
    · exact .inr ⟨q, hq, by simp [hfirst]⟩

theorem Tally.step?_accept (h : Tally past r) {window : Span}
    (hstep : r.step? (.accept window) = some (r', effect)) :
    succeeded past = true ∧ r' = r ∧ effect = .refused .stopped ∨
    successes past = [] ∧ completions past = [] ∧ r' = r ∧
      effect = .refused (.timedOut (.connectionTimeout window)) ∨
    ∃ p, successes past = [] ∧ (completions past).head? = some p ∧ effect = .accepted p ∧
      r' = { r with listener := ⟨{ queueAfter past with items := [], senderGone := true }⟩ } := by
  obtain ⟨hs, heq⟩ | ⟨hs, hc, heq⟩ | ⟨p, hs, hc, heq⟩ := h.accept window <;>
    rw [step?, heq] at hstep <;>
    obtain ⟨rfl, rfl⟩ := Prod.mk.inj (Option.some.inj hstep)
  · exact .inl ⟨hs, rfl, rfl⟩
  · exact .inr (.inl ⟨hs, hc, rfl, rfl⟩)
  · exact .inr (.inr ⟨p, hs, hc, rfl, rfl⟩)

theorem step?_lapse {window : Span} (h : r.step? (.lapse window) = some (r', effect)) :
    r.listener.upgrades.senderGone = false ∧ r' = r ∧
      effect = .refused (.timedOut (.connectionTimeout window)) := by
  rw [step?] at h
  split at h
  · cases h
  · next hopen =>
    obtain ⟨rfl, rfl⟩ := Prod.mk.inj (Option.some.inj h)
    exact ⟨by simpa using hopen, rfl, rfl⟩

/-- A call that ends without a worker leaves everything as it was. -/
theorem Tally.refused (h : Tally past r) {x : Event × Effect} (ha : arrival? x.1 = none)
    (hc : completion? x.1 = none) (hs : success? x.2 = none) : Tally (past ++ [x]) r :=
  h.quiet hc hs rfl (by rw [ha, h.heads]; simp) fun _ _ hdone => hdone

theorem Tally.accepted (h : Tally past r) {p : PeerId} (hs : successes past = [])
    (hc : (completions past).head? = some p) (window : Span) :
    Tally (past ++ [(.accept window, .accepted p)])
      { r with listener := ⟨{ queueAfter past with items := [], senderGone := true }⟩ } := by
  refine ⟨?_, ?_, ?_, ?_, .inr ⟨p, ?_, ?_⟩⟩
  · simp [queueAfter, succeeded, success?]
  · simp [h.heads, arrival?]
  · simpa [completion?] using h.done
  · simpa [completion?] using h.nodup
  · simp [hs, success?]
  · simp [hc, completion?]

/-- What a history says about its state stays true whatever happens next. -/
theorem Tally.step (h : Tally past r) (hstep : r.step? e = some (r', effect)) :
    Tally (past ++ [(e, effect)]) r' := by
  cases e with
  | arrives head =>
    obtain ⟨rfl, rfl⟩ := Prod.mk.inj (Option.some.inj hstep)
    exact h.arrives head
  | checked p =>
    obtain ⟨head, stage, hclient, rfl, rfl⟩ := step?_checked hstep
    exact h.checked hclient _
  | completed p =>
    obtain ⟨head, hclient, rfl, rfl⟩ := step?_completed hstep
    exact h.completed hclient _ (by split <;> rfl)
  | accept window =>
    obtain ⟨-, rfl, rfl⟩ | ⟨-, -, rfl, rfl⟩ | ⟨p, hs, hc, rfl, rfl⟩ := h.step?_accept hstep
    · exact h.refused rfl rfl rfl
    · exact h.refused rfl rfl rfl
    · exact h.accepted hs hc window
  | lapse window =>
    obtain ⟨-, rfl, rfl⟩ := step?_lapse hstep
    exact h.refused rfl rfl rfl

theorem Reached.tally (h : Reached past r) : Tally past r := by
  induction h with
  | start => exact tally_start
  | step _ hstep ih => exact ih.step hstep

end

/-! ## Who is handed over -/

/-- The whole law of a history: what each event brought about, from what had happened before. -/
structure HandedOver (history : History) : Prop where
  /-- At most one call succeeds. -/
  once : (successes history).length ≤ 1
  /-- It returns the connection whose upgrade was through first of all. -/
  first : ∀ p ∈ successes history, (completions history).head? = some p
  /-- An upgrade gets through once. -/
  nodup : (completions history).Nodup
  kept : ∀ before after p effect, history = before ++ (.completed p, effect) :: after →
    completions before = [] → effect = .kept
  /-- Every other connection is dropped and never returned. -/
  dropped : ∀ before after p effect, history = before ++ (.completed p, effect) :: after →
    completions before ≠ [] → effect = .dropped ∧ p ∉ successes history
  /-- Only requests that have come are looked at. -/
  known : ∀ before after p effect, history = before ++ (.checked p, effect) :: after →
    ∃ head, (arrivals before)[p]? = some head
  admitted : ∀ before after p effect head, history = before ++ (.checked p, effect) :: after →
    (arrivals before)[p]? = some (some head) → head.isUpgrade = true → successes before = [] →
    effect = .replied .switching
  /-- All other requests get a plain answer, whenever they are looked at. -/
  plain : ∀ before after p effect head, history = before ++ (.checked p, effect) :: after →
    (arrivals before)[p]? = some (some head) → head.isUpgrade = false →
    effect = .replied .notFound
  late : ∀ before after p effect head, history = before ++ (.checked p, effect) :: after →
    (arrivals before)[p]? = some (some head) → successes before ≠ [] →
    effect = .replied .notFound
  /-- A call takes the first upgrade as soon as it is through. -/
  served : ∀ before after window effect p, history = before ++ (.accept window, effect) :: after →
    successes before = [] → (completions before).head? = some p → effect = .accepted p
  /-- Every call after the success fails, and none of them waits. -/
  stopped : ∀ before after window effect, history = before ++ (.accept window, effect) :: after →
    successes before ≠ [] → ∃ fault, effect = .refused fault ∧
      fault.message = "Worker listener stopped before a worker connected"
  lapsed : ∀ before after window effect, history = before ++ (.lapse window, effect) :: after →
    successes before = [] ∧ effect = .refused (.timedOut (.connectionTimeout window))

section

variable {history before after : History} {r : Reception} {effect : Effect} {p : PeerId}

private theorem Reached.completed_effect (h : Reached history r)
    (heq : history = before ++ (.completed p, effect) :: after) :
    completions before = [] ∧ effect = .kept ∨ completions before ≠ [] ∧ effect = .dropped := by
  obtain ⟨s, s', hs, hstep⟩ := h.split heq
  obtain ⟨head, -, -, heffect⟩ := step?_completed hstep
  obtain ⟨hc, -, hcomplete⟩ | ⟨hc, hcomplete⟩ := hs.tally.complete p
  · exact .inl ⟨hc, by simp [heffect, hcomplete]⟩
  · exact .inr ⟨hc, by simp [heffect, hcomplete]⟩

theorem Reached.checked_effect (h : Reached history r)
    (heq : history = before ++ (.checked p, effect) :: after) :
    ∃ head, (arrivals before)[p]? = some head ∧
      effect = .replied (Listener.answer ⟨queueAfter before⟩ head) := by
  obtain ⟨s, s', hs, hstep⟩ := h.split heq
  obtain ⟨head, stage, hclient, -, heffect⟩ := step?_checked hstep
  refine ⟨head, ?_, by rw [heffect, hs.tally.listener]⟩
  rw [← hs.tally.heads, List.getElem?_map, hclient]
  rfl

theorem Reached.reply (h : Reached history r) {head : Option RequestHead}
    (heq : history = before ++ (.checked p, effect) :: after)
    (hhead : (arrivals before)[p]? = some head) :
    effect = .replied (Listener.answer ⟨queueAfter before⟩ head) := by
  obtain ⟨head', hhead', heffect⟩ := h.checked_effect heq
  rw [heffect, Option.some.inj (hhead.symm.trans hhead')]

private theorem Reached.accept_effect (h : Reached history r) {window : Span}
    (heq : history = before ++ (.accept window, effect) :: after) :
    successes before ≠ [] ∧ effect = .refused .stopped ∨
      successes before = [] ∧
        ∀ p, (completions before).head? = some p → effect = .accepted p := by
  obtain ⟨s, s', hs, hstep⟩ := h.split heq
  obtain ⟨hsome, -, heffect⟩ | ⟨hnone, hc, -⟩ | ⟨p, hnone, hp, heffect, -⟩ :=
    hs.tally.step?_accept hstep
  · exact .inl ⟨by simpa [succeeded] using hsome, heffect⟩
  · exact .inr ⟨hnone, by simp [hc]⟩
  · refine .inr ⟨hnone, fun q hq => ?_⟩
    rw [heffect, Option.some.inj (hp.symm.trans hq)]

theorem Tally.head?_completions (h : Tally history r) (hp : p ∈ successes history) :
    (completions history).head? = some p := by
  obtain hnone | ⟨q, hwon, hfirst⟩ := h.won
  · simp [hnone] at hp
  · rw [hwon] at hp
    rwa [List.mem_singleton.mp hp]

/-- A connection that is not the first to be through is not handed over. -/
theorem Tally.not_successes (h : Tally history r)
    (heq : history = before ++ (.completed p, effect) :: after) (hsome : completions before ≠ []) :
    p ∉ successes history := by
  obtain ⟨q, qs, hq⟩ := List.exists_cons_of_ne_nil hsome
  have hcompletions : completions history = q :: (qs ++ p :: completions after) := by
    rw [heq, completions, List.filterMap_append, ← completions, hq]
    rfl
  intro hp
  have hfirst := h.head?_completions hp
  have hnodup := h.nodup
  rw [hcompletions] at hfirst hnodup
  obtain rfl := Option.some.inj hfirst
  exact (List.nodup_cons.mp hnodup).1 (by simp)

end

/-- In whatever order requests come and are looked at, upgrades get through and calls for a worker
end, at most one worker is handed over, namely the first that is through, and afterwards the listener
refuses everybody. -/
theorem worker_handed_over_once {events : List Event} {r : Reception} {history : History}
    (h : ({} : Reception).replay? events = some (r, history)) : HandedOver history := by
  have hreached : Reached history r := Reached.start.replay h
  have htally := hreached.tally
  constructor
  case nodup => exact htally.nodup
  case once =>
    obtain hnone | ⟨p, hwon, -⟩ := htally.won
    · simp [hnone]
    · simp [hwon]
  case first => exact fun p hp => htally.head?_completions hp
  case kept =>
    intro before after p effect heq hc
    obtain ⟨-, heffect⟩ | ⟨hsome, -⟩ := hreached.completed_effect heq
    · exact heffect
    · exact absurd hc hsome
  case dropped =>
    intro before after p effect heq hc
    obtain ⟨hnone, -⟩ | ⟨-, heffect⟩ := hreached.completed_effect heq
    · exact absurd hnone hc
    · exact ⟨heffect, htally.not_successes heq hc⟩
  case known =>
    intro before after p effect heq
    obtain ⟨head, hhead, -⟩ := hreached.checked_effect heq
    exact ⟨head, hhead⟩
  case admitted =>
    intro before after p effect head heq hhead hupgrade hs
    rw [hreached.reply heq hhead]
    simp [Listener.answer, queueAfter, hupgrade, succeeded_eq_false_iff.mpr hs]
  case plain =>
    intro before after p effect head heq hhead hplain
    rw [hreached.reply heq hhead]
    simp [Listener.answer, hplain]
  case late =>
    intro before after p effect head heq hhead hs
    rw [hreached.reply heq hhead]
    simp [Listener.answer, queueAfter, succeeded, hs]
  case served =>
    intro before after window effect p heq hs hp
    obtain ⟨hsome, -⟩ | ⟨-, hserved⟩ := hreached.accept_effect heq
    · exact absurd hs hsome
    · exact hserved p hp
  case stopped =>
    intro before after window effect heq hs
    obtain ⟨-, heffect⟩ | ⟨hnone, -⟩ := hreached.accept_effect heq
    · exact ⟨.stopped, heffect, rfl⟩
    · exact absurd hnone hs
  case lapsed =>
    intro before after window effect heq
    obtain ⟨s, s', hbefore, hstep⟩ := hreached.split heq
    obtain ⟨hopen, -, heffect⟩ := step?_lapse hstep
    rw [hbefore.tally.queue] at hopen
    exact ⟨succeeded_eq_false_iff.mp hopen, heffect⟩

/-- A plain request and two upgrades, of which the second is through first; a call comes too early,
and an upgrade and a call come too late. -/
def race : List Event :=
  [.lapse ⟨1, 0⟩, .arrives (some ⟨"GET", "HTTP/1.1", []⟩), .arrives (some Session.upgradeHead),
    .arrives (some Session.upgradeHead), .checked 1, .checked 0, .checked 2, .accept ⟨1, 0⟩,
    .completed 2, .lapse ⟨1, 0⟩, .completed 1, .accept ⟨1, 0⟩, .arrives (some Session.upgradeHead),
    .checked 3, .accept ⟨1, 0⟩]

def raceEffects : List Effect :=
  [.refused (.timedOut (.connectionTimeout ⟨1, 0⟩)), .came, .came, .came, .replied .switching,
    .replied .notFound, .replied .switching, .refused (.timedOut (.connectionTimeout ⟨1, 0⟩)),
    .kept, .refused (.timedOut (.connectionTimeout ⟨1, 0⟩)), .dropped, .accepted 2, .came,
    .replied .notFound, .refused .stopped]

theorem worker_handed_over_once_race :
    (({} : Reception).replay? race).map (·.2) = some (race.zip raceEffects) ∧
      HandedOver (race.zip raceEffects) := by
  have h : (({} : Reception).replay? race).map (·.2) = some (race.zip raceEffects) := by
    decide +kernel
  obtain ⟨⟨r, history⟩, hreplay, hhistory⟩ := Option.map_eq_some_iff.mp h
  refine ⟨h, ?_⟩
  rw [← hhistory]
  exact worker_handed_over_once hreplay

end SuiteRunner.Transport.Reception
