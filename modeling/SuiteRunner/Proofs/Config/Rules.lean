import Mathlib.Data.Prod.Lex
import SuiteRunner.Config.Validation
import SuiteRunner.Proofs.Text.Blank

/-! # The rules that settings have to keep

Settings pass exactly if they keep all rules. Otherwise the fault that is told is that of the first
rule they break, where the rules for one profile stand together and profiles go by their index. -/
namespace SuiteRunner.Config

open Text (IsGap blank_iff)

/-! ## Rules -/

/-- What is asked of settings. A rule for profiles is asked of each of them. -/
inductive Rule where
  | runtimeFile
  | testFile
  | filesDiffer
  | someProfile
  | label (index : Nat)
  | file (index : Nat)
  | notRuntime (index : Nat)
  | newLabel (index : Nat)
  | host
  | connectTimeout
  | batchTimeout
deriving DecidableEq, Repr

namespace Rule

/-- Rules for profiles are one group, each of the others is one by itself. -/
def group : Rule → Nat
  | .runtimeFile => 0
  | .testFile => 1
  | .filesDiffer => 2
  | .someProfile => 3
  | .label _ | .file _ | .notRuntime _ | .newLabel _ => 4
  | .host => 5
  | .connectTimeout => 6
  | .batchTimeout => 7

/-- The profile that a rule is asked of, and the place among the rules for it. -/
def turn : Rule → Nat × Nat
  | .label index => (index, 0)
  | .file index => (index, 1)
  | .notRuntime index => (index, 2)
  | .newLabel index => (index, 3)
  | _ => (0, 0)

/-- Rules go by group, then by profile. -/
def place (r : Rule) : Nat ×ₗ Nat ×ₗ Nat := toLex (r.group, toLex r.turn)

private theorem place_injective {r r' : Rule} (h : r.place = r'.place) : r = r' := by
  cases r <;> cases r' <;> simp_all [place, group, turn]

private theorem place_lt_of_group {r r' : Rule} (h : r.group < r'.group) : r.place < r'.place :=
  Prod.Lex.toLex_lt_toLex.mpr (.inl h)

private theorem place_lt_of_turn {r r' : Rule} (hgroup : r.group = r'.group)
    (h : toLex r.turn < toLex r'.turn) : r.place < r'.place :=
  Prod.Lex.toLex_lt_toLex.mpr (.inr ⟨hgroup, h⟩)

end Rule

/-- Settings break a rule, and this is the fault to tell. -/
inductive Breaks (c : Config) : Rule → SettingFault → Prop
  | runtimeFile (h : IsGap c.discovery.runtimeFile.toList) : Breaks c .runtimeFile .noRuntimeFile
  | testFile (h : IsGap c.discovery.testFile.toList) : Breaks c .testFile .noTestFile
  | filesDiffer (h : c.discovery.runtimeFile = c.discovery.testFile) :
      Breaks c .filesDiffer (.sameFiles c.discovery.runtimeFile)
  | someProfile (h : c.discovery.profiles = []) : Breaks c .someProfile .noProfiles
  | label {i : Nat} {p : Profile} (hp : c.discovery.profiles[i]? = some p)
      (h : IsGap p.label.toList) : Breaks c (.label i) (.noLabel i)
  | file {i : Nat} {p : Profile} (hp : c.discovery.profiles[i]? = some p)
      (h : IsGap p.file.toList) : Breaks c (.file i) (.noFile i p.label)
  | notRuntime {i : Nat} {p : Profile} (hp : c.discovery.profiles[i]? = some p)
      (h : p.file = c.discovery.runtimeFile) :
      Breaks c (.notRuntime i) (.runtimeAsProfile i p.label c.discovery.runtimeFile)
  | newLabel {i j : Nat} {p q : Profile} (hp : c.discovery.profiles[i]? = some p)
      (hj : j < i) (hq : c.discovery.profiles[j]? = some q) (h : q.label = p.label) :
      Breaks c (.newLabel i) (.sameLabel p.label)
  | host (h : IsGap c.server.host.toList) : Breaks c .host .noHost
  | connectTimeout (h : c.server.connectTimeout = 0) : Breaks c .connectTimeout .noConnectTimeout
  | batchTimeout (h : c.dispatch.batchTimeout = 0) : Breaks c .batchTimeout .noBatchTimeout

variable {c : Config} {r : Rule} {rs rs' : List Rule} {f : SettingFault}
  {x y : Except SettingFault Unit}

theorem Breaks.unique {f' : SettingFault} (h : Breaks c r f) (h' : Breaks c r f') : f = f' := by
  cases h <;> cases h' <;> simp_all

/-- Settings that keep all rules. -/
structure Acceptable (c : Config) : Prop where
  runtimeFile : ¬ IsGap c.discovery.runtimeFile.toList
  testFile : ¬ IsGap c.discovery.testFile.toList
  filesDiffer : c.discovery.runtimeFile ≠ c.discovery.testFile
  someProfile : c.discovery.profiles ≠ []
  labels : ∀ p ∈ c.discovery.profiles, ¬ IsGap p.label.toList
  files : ∀ p ∈ c.discovery.profiles, ¬ IsGap p.file.toList
  notRuntime : ∀ p ∈ c.discovery.profiles, p.file ≠ c.discovery.runtimeFile
  newLabels : (c.discovery.profiles.map (·.label)).Nodup
  host : ¬ IsGap c.server.host.toList
  connectTimeout : 0 < c.server.connectTimeout
  batchTimeout : 0 < c.dispatch.batchTimeout

/-- Labels are distinct if each one is new after those before it. -/
theorem nodup_labels_iff : (c.discovery.profiles.map (·.label)).Nodup ↔
    ∀ i f, ¬ Breaks c (.newLabel i) f := by
  rw [List.Nodup, List.pairwise_map, List.pairwise_iff_getElem]
  constructor
  · intro h i f hbreaks
    cases hbreaks with
    | newLabel hp hlt hq heq =>
      obtain ⟨hi, rfl⟩ := List.getElem?_eq_some_iff.mp hp
      obtain ⟨hj, rfl⟩ := List.getElem?_eq_some_iff.mp hq
      exact h _ i hj hi hlt heq
  · intro h j i hj hi hlt heq
    exact h i _ (.newLabel (List.getElem?_eq_getElem hi) hlt (List.getElem?_eq_getElem hj) heq)

theorem acceptable_iff : Acceptable c ↔ ∀ r f, ¬ Breaks c r f := by
  constructor
  · intro h r f hbreaks
    cases hbreaks with
    | runtimeFile hgap => exact h.runtimeFile hgap
    | testFile hgap => exact h.testFile hgap
    | filesDiffer heq => exact h.filesDiffer heq
    | someProfile hnil => exact h.someProfile hnil
    | label hp hgap => exact h.labels _ (List.mem_of_getElem? hp) hgap
    | file hp hgap => exact h.files _ (List.mem_of_getElem? hp) hgap
    | notRuntime hp heq => exact h.notRuntime _ (List.mem_of_getElem? hp) heq
    | newLabel hp hlt hq heq => exact nodup_labels_iff.mp h.newLabels _ _ (.newLabel hp hlt hq heq)
    | host hgap => exact h.host hgap
    | connectTimeout hzero => exact Nat.ne_of_gt h.connectTimeout hzero
    | batchTimeout hzero => exact Nat.ne_of_gt h.batchTimeout hzero
  · intro h
    have hprofile {P : Profile → Prop} (hP : ∀ (i : Nat) p, c.discovery.profiles[i]? = some p → P p) :
        ∀ p ∈ c.discovery.profiles, P p := by
      intro p hp
      obtain ⟨i, hi⟩ := List.getElem?_of_mem hp
      exact hP i p hi
    exact
      { runtimeFile := fun hgap => h _ _ (.runtimeFile hgap)
        testFile := fun hgap => h _ _ (.testFile hgap)
        filesDiffer := fun heq => h _ _ (.filesDiffer heq)
        someProfile := fun hnil => h _ _ (.someProfile hnil)
        labels := hprofile fun i p hp hgap => h _ _ (.label hp hgap)
        files := hprofile fun i p hp hgap => h _ _ (.file hp hgap)
        notRuntime := hprofile fun i p hp heq => h _ _ (.notRuntime hp heq)
        newLabels := nodup_labels_iff.mpr fun i => h (.newLabel i)
        host := fun hgap => h _ _ (.host hgap)
        connectTimeout := Nat.pos_of_ne_zero fun hzero => h _ _ (.connectTimeout hzero)
        batchTimeout := Nat.pos_of_ne_zero fun hzero => h _ _ (.batchTimeout hzero) }

/-! ## Looking at rules in order -/

/-- What comes of looking at some rules in order: the fault of the first one that is broken. -/
inductive Sweep (c : Config) : List Rule → Except SettingFault Unit → Prop
  | nil : Sweep c [] (.ok ())
  | broken {r : Rule} {rs : List Rule} {f : SettingFault} (h : Breaks c r f) :
      Sweep c (r :: rs) (.error f)
  | kept {r : Rule} {rs : List Rule} {x : Except SettingFault Unit} (h : ∀ f, ¬ Breaks c r f)
      (hrs : Sweep c rs x) : Sweep c (r :: rs) x

namespace Sweep

/-- A check that asks for one rule and goes on with others. -/
theorem guard {p : Prop} [Decidable p] (hbroken : p → Breaks c r f)
    (hkept : ∀ f, Breaks c r f → p) (hrs : Sweep c rs x) :
    Sweep c (r :: rs) (if p then .error f else x) := by
  split
  · next hp => exact .broken (hbroken hp)
  · next hp => exact .kept (fun f hf => hp (hkept f hf)) hrs

theorem append (h : Sweep c rs x) (h' : Sweep c rs' y) : Sweep c (rs ++ rs') (x >>= fun _ => y) := by
  induction h with
  | nil => exact h'
  | broken hbroken => exact .broken hbroken
  | kept hkept _ ih => exact .kept hkept ih

theorem ok (h : Sweep c rs (.ok ())) : ∀ r ∈ rs, ∀ f, ¬ Breaks c r f := by
  generalize hx : (.ok () : Except SettingFault Unit) = x at h
  induction h with
  | nil => simp
  | broken => cases hx
  | kept hkept _ ih => exact List.forall_mem_cons.mpr ⟨hkept, ih hx⟩

theorem error (h : Sweep c rs (.error f)) (hsorted : rs.Pairwise fun r r' => r.place < r'.place) :
    ∃ r, Breaks c r f ∧ ∀ r' ∈ rs, ∀ f', Breaks c r' f' → r.place ≤ r'.place := by
  generalize hx : (.error f : Except SettingFault Unit) = x at h
  induction h with
  | nil => cases hx
  | broken hbroken =>
    obtain rfl := Except.error.inj hx
    refine ⟨_, hbroken, List.forall_mem_cons.mpr ⟨fun _ _ => le_refl _, fun r' hr' _ _ => ?_⟩⟩
    exact le_of_lt (List.rel_of_pairwise_cons hsorted hr')
  | kept hkept _ ih =>
    obtain ⟨r, hr, hfirst⟩ := ih hsorted.of_cons hx
    exact ⟨r, hr, List.forall_mem_cons.mpr ⟨fun f' hf' => absurd hf' (hkept f'), hfirst⟩⟩

end Sweep

/-! ## All rules -/

def profileRules (i : Nat) : List Rule := [.label i, .file i, .notRuntime i, .newLabel i]

def discoveryRules (d : DiscoverySettings) : List Rule :=
  [.runtimeFile, .testFile, .filesDiffer, .someProfile] ++
    (List.range' 0 d.profiles.length).flatMap profileRules

/-- The rules that matter for some settings, in order. -/
def rules (c : Config) : List Rule :=
  discoveryRules c.discovery ++ ([.host, .connectTimeout] ++ [.batchTimeout])

theorem group_of_mem_profileRules {i : Nat} (h : r ∈ profileRules i) :
    r.group = 4 ∧ r.turn.1 = i := by
  simp only [profileRules, List.mem_cons, List.not_mem_nil, or_false] at h
  rcases h with rfl | rfl | rfl | rfl <;> exact ⟨rfl, rfl⟩

private theorem pairwise_profileRules (start n : Nat) :
    ((List.range' start n).flatMap profileRules).Pairwise fun r r' => r.place < r'.place := by
  rw [List.pairwise_flatMap]
  constructor
  · intro i _
    simp [profileRules, Rule.place, Rule.group, Rule.turn, Prod.Lex.toLex_lt_toLex]
  · refine (List.pairwise_lt_range' 1).imp fun {i j} hlt r hr r' hr' => ?_
    obtain ⟨hgroup, rfl⟩ := group_of_mem_profileRules hr
    obtain ⟨hgroup', rfl⟩ := group_of_mem_profileRules hr'
    exact Rule.place_lt_of_turn (hgroup.trans hgroup'.symm) (Prod.Lex.toLex_lt_toLex.mpr (.inl hlt))

theorem pairwise_rules (c : Config) : (rules c).Pairwise fun r r' => r.place < r'.place := by
  have hgroup : ∀ r ∈ (List.range' 0 c.discovery.profiles.length).flatMap profileRules,
      r.group = 4 := by
    intro r hr
    obtain ⟨i, -, hi⟩ := List.mem_flatMap.mp hr
    exact (group_of_mem_profileRules hi).1
  have hfirst : ∀ r ∈ [Rule.runtimeFile, .testFile, .filesDiffer, .someProfile], r.group < 4 := by
    decide
  have hlast : ∀ r ∈ [Rule.host, .connectTimeout, .batchTimeout], 4 < r.group := by decide
  have hdiscovery : ∀ r ∈ discoveryRules c.discovery, r.group ≤ 4 := by
    rw [discoveryRules, List.forall_mem_append]
    exact ⟨fun r hr => Nat.le_of_lt (hfirst r hr), fun r hr => Nat.le_of_eq (hgroup r hr)⟩
  rw [rules, List.pairwise_append, discoveryRules, List.pairwise_append, ← discoveryRules]
  refine ⟨⟨?_, pairwise_profileRules _ _, ?_⟩, ?_, ?_⟩
  · simp [Rule.place, Rule.group, Prod.Lex.toLex_lt_toLex]
  · intro r hr r' hr'
    exact Rule.place_lt_of_group (hgroup r' hr' ▸ hfirst r hr)
  · simp [Rule.place, Rule.group, Prod.Lex.toLex_lt_toLex]
  · intro r hr r' hr'
    exact Rule.place_lt_of_group (Nat.lt_of_le_of_lt (hdiscovery r hr) (hlast r' hr'))

theorem Breaks.mem_rules (h : Breaks c r f) : r ∈ rules c := by
  have hprofile {i : Nat} {p : Profile} (hp : c.discovery.profiles[i]? = some p) {r : Rule}
      (hr : r ∈ profileRules i) : r ∈ rules c := by
    have hi := (List.getElem?_eq_some_iff.mp hp).1
    simp only [rules, discoveryRules, List.mem_append, List.mem_flatMap, List.mem_range'_1]
    exact .inl (.inr ⟨i, by omega, hr⟩)
  cases h with
  | label hp | file hp | notRuntime hp | newLabel hp => exact hprofile hp (by simp [profileRules])
  | _ => simp [rules, discoveryRules]

/-! ## The check -/

/-- The labels to compare with are those of the profiles before. -/
theorem sweep_profile {before after : List Profile} {p : Profile}
    (h : c.discovery.profiles = before ++ p :: after) :
    Sweep c (profileRules before.length)
      (p.check c.discovery.runtimeFile before.length (before.map (·.label))) := by
  have hp : c.discovery.profiles[before.length]? = some p := by simp [h]
  have hbefore {j : Nat} (hj : j < before.length) : c.discovery.profiles[j]? = before[j]? := by
    rw [h, List.getElem?_append_left hj]
  refine .guard ?_ ?_ (.guard ?_ ?_ (.guard ?_ ?_ (.guard ?_ ?_ .nil)))
  · exact fun hblank => .label hp (blank_iff.mp hblank)
  · intro f hbreaks
    cases hbreaks with
    | label hq hgap =>
      obtain rfl := Option.some.inj (hq.symm.trans hp)
      exact blank_iff.mpr hgap
  · exact fun hblank => .file hp (blank_iff.mp hblank)
  · intro f hbreaks
    cases hbreaks with
    | file hq hgap =>
      obtain rfl := Option.some.inj (hq.symm.trans hp)
      exact blank_iff.mpr hgap
  · exact fun heq => .notRuntime hp heq
  · intro f hbreaks
    cases hbreaks with
    | notRuntime hq heq =>
      obtain rfl := Option.some.inj (hq.symm.trans hp)
      exact heq
  · intro hmem
    obtain ⟨q, hq, heq⟩ := List.mem_map.mp hmem
    obtain ⟨j, hj, rfl⟩ := List.mem_iff_getElem.mp hq
    exact .newLabel hp hj ((hbefore hj).trans (List.getElem?_eq_getElem hj)) heq
  · intro f hbreaks
    cases hbreaks with
    | newLabel hp' hj hq heq =>
      obtain rfl := Option.some.inj (hp'.symm.trans hp)
      rw [hbefore hj] at hq
      exact heq ▸ List.mem_map_of_mem (List.mem_of_getElem? hq)

private theorem sweep_profiles (before after : List Profile)
    (h : c.discovery.profiles = before ++ after) :
    Sweep c ((List.range' before.length after.length).flatMap profileRules)
      (checkProfiles c.discovery.runtimeFile before.length (before.map (·.label)) after) := by
  induction after generalizing before with
  | nil => exact .nil
  | cons p after ih =>
    have hrest := ih (before ++ [p]) (by simp [h])
    rw [List.length_append, List.length_singleton, List.map_append] at hrest
    exact (sweep_profile h).append hrest

private theorem sweep_discovery (c : Config) :
    Sweep c (discoveryRules c.discovery) c.discovery.check := by
  refine .guard ?_ ?_ (.guard ?_ ?_ (.guard ?_ ?_ (.guard ?_ ?_ ?_)))
  · exact fun hblank => .runtimeFile (blank_iff.mp hblank)
  · intro f hbreaks
    cases hbreaks with
    | runtimeFile hgap => exact blank_iff.mpr hgap
  · exact fun hblank => .testFile (blank_iff.mp hblank)
  · intro f hbreaks
    cases hbreaks with
    | testFile hgap => exact blank_iff.mpr hgap
  · exact fun heq => .filesDiffer heq
  · intro f hbreaks
    cases hbreaks with
    | filesDiffer heq => exact heq
  · exact fun hempty => .someProfile (List.isEmpty_iff.mp hempty)
  · intro f hbreaks
    cases hbreaks with
    | someProfile hnil => exact List.isEmpty_iff.mpr hnil
  · exact sweep_profiles [] _ rfl

private theorem sweep_server (c : Config) : Sweep c [.host, .connectTimeout] c.server.check := by
  refine .guard ?_ ?_ (.guard ?_ ?_ .nil)
  · exact fun hblank => .host (blank_iff.mp hblank)
  · intro f hbreaks
    cases hbreaks with
    | host hgap => exact blank_iff.mpr hgap
  · exact fun hzero => .connectTimeout hzero
  · intro f hbreaks
    cases hbreaks with
    | connectTimeout hzero => exact hzero

private theorem sweep_dispatch (c : Config) : Sweep c [.batchTimeout] c.dispatch.check := by
  refine .guard ?_ ?_ .nil
  · exact fun hzero => .batchTimeout hzero
  · intro f hbreaks
    cases hbreaks with
    | batchTimeout hzero => exact hzero

theorem sweep_check (c : Config) : Sweep c (rules c) c.check :=
  (sweep_discovery c).append ((sweep_server c).append (sweep_dispatch c))

theorem check_eq_ok_iff : c.check = .ok () ↔ Acceptable c := by
  have hsweep := sweep_check c
  rw [acceptable_iff]
  constructor
  · intro h r f hbreaks
    rw [h] at hsweep
    exact hsweep.ok r hbreaks.mem_rules f hbreaks
  · intro h
    cases hcheck : c.check with
    | ok => rfl
    | error f =>
      rw [hcheck] at hsweep
      obtain ⟨r, hbreaks, -⟩ := hsweep.error (pairwise_rules c)
      exact absurd hbreaks (h r f)

/-- The settings break a rule, and none that stands before it. -/
def BreaksFirst (c : Config) (r : Rule) (f : SettingFault) : Prop :=
  Breaks c r f ∧ ∀ r' f', Breaks c r' f' → r.place ≤ r'.place

theorem BreaksFirst.unique {r' : Rule} {f' : SettingFault} (h : BreaksFirst c r f)
    (h' : BreaksFirst c r' f') : f = f' := by
  obtain rfl : r = r' :=
    Rule.place_injective (le_antisymm (h.2 _ _ h'.1) (h'.2 _ _ h.1))
  exact h.1.unique h'.1

private theorem check_eq_error_iff : c.check = .error f ↔ ∃ r, BreaksFirst c r f := by
  have hfirst {f : SettingFault} (h : c.check = .error f) : ∃ r, BreaksFirst c r f := by
    have hsweep := sweep_check c
    rw [h] at hsweep
    obtain ⟨r, hbreaks, hmin⟩ := hsweep.error (pairwise_rules c)
    exact ⟨r, hbreaks, fun r' f' h' => hmin r' h'.mem_rules f' h'⟩
  refine ⟨hfirst, ?_⟩
  rintro ⟨r, hr⟩
  cases hcheck : c.check with
  | ok => exact absurd hr.1 (acceptable_iff.mp (check_eq_ok_iff.mp hcheck) r f)
  | error f' =>
    obtain ⟨r', hr'⟩ := hfirst hcheck
    rw [hr.unique hr']

/-- Settings pass exactly if they are acceptable. If they are not, the fault of the first rule that
they break is told, and no other. -/
theorem first_broken_rule_told (c : Config) :
    (c.check = .ok () ↔ Acceptable c) ∧
      ∀ f, c.check = .error f ↔ ∃ r, BreaksFirst c r f :=
  ⟨check_eq_ok_iff, fun _ => check_eq_error_iff⟩

-- The second profile has no file and no label of its own, and the third one no label at all.
example : ({ discovery := { profiles := [⟨"a", "x"⟩, ⟨"a", " "⟩, ⟨"", "x"⟩] } } : Config).check =
    .error (.noFile 1 "a") := by
  decide

end SuiteRunner.Config
