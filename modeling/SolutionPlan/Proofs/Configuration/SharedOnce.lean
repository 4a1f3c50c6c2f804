import SolutionPlan.Proofs.Configuration.LastWrite

/-!
# How often a shared list entry arrives

A set is built by any sequence of operations, and merging the shared configuration into the named
ones is one of them. An entry that only the shared configuration was given never arrives twice in a
child that merges from the set. It arrives at all exactly where the operations come in time: what is
created, given or overwritten after the shared configuration was merged in stays without it.
-/

namespace SolutionPlan

/-! ## Lists -/

namespace SettingValue

def listed (given : Option SettingValue) : List String := given.elim [] entries

@[simp] theorem listed_none : listed none = [] := rfl

def Without (m : String) (given : Option SettingValue) : Prop :=
  ∀ value ∈ given, value = .list value.entries ∧ m ∉ value.entries

instance (m : String) (given : Option SettingValue) : Decidable (Without m given) :=
  inferInstanceAs (Decidable (∀ value ∈ given, _))

variable {m : String} {own inherited : Option SettingValue}

theorem without_none : Without m none := fun _ h => nomatch h

theorem Without.count_eq_zero (h : Without m own) : (listed own).count m = 0 := by
  cases own with
  | none => rfl
  | some value => exact List.count_eq_zero.2 (h value rfl).2

/-- What is inherited comes behind a list that lacks the entry. -/
theorem Without.count_combine (h : Without m own) :
    (listed (combine own inherited)).count m = (listed inherited).count m := by
  cases own with
  | none => cases inherited <;> rfl
  | some value =>
      obtain ⟨hlist, hnot⟩ := h value rfl
      have hzero := List.count_eq_zero.2 hnot
      rw [hlist]
      cases inherited with
      | none => exact hzero
      | some other =>
          cases other with
          | list others =>
              change (value.entries ++ others).count m = others.count m
              rw [List.count_append, hzero, Nat.zero_add]
          | bool _ | choice _ | warningLevel _ | text _ => exact hzero

theorem Without.combine (h : Without m own) (k : Without m inherited) :
    Without m (combine own inherited) := by
  cases own with
  | none =>
      cases inherited with
      | none => exact k
      | some other => exact k
  | some value =>
      obtain ⟨hlist, hnot⟩ := h value rfl
      rw [hlist]
      cases inherited with
      | none =>
          rintro joined ⟨⟩
          exact ⟨rfl, hnot⟩
      | some other =>
          obtain ⟨hother, hlacks⟩ := k other rfl
          rw [hother]
          rintro joined ⟨⟩
          exact ⟨rfl, fun hmem => (List.mem_append.1 hmem).elim hnot hlacks⟩

end SettingValue

open SettingValue (listed Without)

/-! ## Histories -/

namespace ConfigurationSet

inductive Operation where
  | entry (slot : Slot)
  | option (slot : Slot) (scope : Scope) (setting raw : String)
  | add (c : Configuration)
  | setShared (c : Configuration)
  | applyShared
deriving DecidableEq

namespace Operation

variable (key : SettingKey)

def edit (scope : Scope) (setting raw : String) : Edit :=
  (Edit.ofText scope setting raw).value.getD .mention

def value? : Operation → Option SettingValue
  | .option _ scope setting raw => (edit scope setting raw).value? key
  | .add c | .setShared c => c.get? key
  | .entry _ | .applyShared => none

def toShared : Operation → Bool
  | .option (.shared _) _ _ _ | .setShared _ => true
  | _ => false

def overwrites (name : String) : Operation → Bool
  | .option (.named other) scope setting raw =>
      other == name && ((edit scope setting raw).value? key).isSome
  | _ => false

end Operation

def step (s : ConfigurationSet) : Operation → ConfigurationSet
  | .entry slot => s.update slot id
  | .option slot scope setting raw =>
      s.update slot fun c => c.edit (Operation.edit scope setting raw)
  | .add c => s.add c
  | .setShared c => s.setShared c
  | .applyShared => s.applyShared

def run (s : ConfigurationSet) (history : List Operation) : ConfigurationSet :=
  history.foldl step s

theorem run_append (s : ConfigurationSet) (history later : List Operation) :
    s.run (history ++ later) = (s.run history).run later := List.foldl_append

def valueAt (s : ConfigurationSet) (slot : Slot) (key : SettingKey) : Option SettingValue :=
  (s.at? slot).bind fun c => c.get? key

def sharedValue (s : ConfigurationSet) (key : SettingKey) : Option SettingValue :=
  s.shared.bind fun c => c.get? key

/-! ## What one operation does -/

section Step

variable (s : ConfigurationSet) (key : SettingKey)

theorem valueAt_eq_entry (slot : Slot) : s.valueAt slot key = (s.entry slot).get? key := by
  refine bind_at? (fun other => ?_) s slot
  cases other with
  | shared name => exact Configuration.get?_named name key
  | named name => exact Configuration.get?_named name key

theorem valueAt_edit (slot other : Slot) (e : Edit) :
    (¬(slot.name? = other.name? ∧ (e.value? key).isSome) ∧
        (s.update slot fun c => c.edit e).valueAt other key = s.valueAt other key) ∨
      ((slot.name? = other.name? ∧ (e.value? key).isSome) ∧
        (s.update slot fun c => c.edit e).valueAt other key = e.value? key) := by
  unfold valueAt
  rw [at?_update _ _ _ fun c => c.name_edit e]
  by_cases hslot : slot.name? = other.name?
  · rw [if_pos hslot, Option.bind_some, Configuration.get?_edit, ← valueAt_eq_entry, valueAt,
      s.at?_congr hslot]
    cases hvalue : e.value? key with
    | none => exact .inl ⟨fun h => (nomatch h.2), rfl⟩
    | some value => exact .inr ⟨⟨hslot, rfl⟩, rfl⟩
  · rw [if_neg hslot]
    exact .inl ⟨fun h => hslot h.1, rfl⟩

theorem sharedApplied_step (op : Operation) :
    (s.step op).sharedApplied = true ↔ s.sharedApplied = true ∨ op = .applyShared := by
  have hupdate : ∀ slot f, (s.update slot f).sharedApplied = s.sharedApplied := by
    intro slot f
    cases slot with
    | shared name => rfl
    | named name =>
        simp only [update, ensure]
        split <;> rfl
  cases op with
  | entry slot => simp [step, hupdate]
  | option slot scope setting raw => simp [step, hupdate]
  | add c => simp [step, ConfigurationSet.add]
  | setShared c => simp [step, ConfigurationSet.setShared]
  | applyShared =>
      simp only [step, ConfigurationSet.applyShared, or_true, iff_true]
      split
      · next happlied => exact happlied
      · split <;> rfl

theorem shared_applyShared : s.applyShared.shared = s.shared := by
  unfold ConfigurationSet.applyShared
  split
  · rfl
  · split <;> simp_all

theorem sharedValue_step (op : Operation) :
    (s.step op).sharedValue key = s.sharedValue key ∨
      (s.step op).sharedValue key = op.value? key := by
  cases op with
  | entry slot =>
      obtain ⟨-, hkept⟩ | ⟨⟨-, hsome⟩, -⟩ := s.valueAt_edit key slot (.shared "") .mention
      · exact .inl hkept
      · cases hsome
  | option slot scope setting raw =>
      obtain ⟨-, hkept⟩ | ⟨-, hgiven⟩ :=
        s.valueAt_edit key slot (.shared "") (Operation.edit scope setting raw)
      · exact .inl hkept
      · exact .inr hgiven
  | add c => exact .inl rfl
  | setShared c => exact .inr rfl
  | applyShared =>
      left
      change s.applyShared.shared.bind _ = _
      rw [shared_applyShared]
      rfl

theorem applyShared_of_applied {s : ConfigurationSet} (h : s.sharedApplied = true) :
    s.applyShared = s := if_pos h

/--
Once the shared configuration was merged in, a named configuration keeps its value unless it is new
or overwritten: then it has the value of the operation.
-/
theorem valueAt_named_step (name : String) {op : Operation}
    (h : s.sharedApplied = true ∨ op ≠ .applyShared) :
    (op.overwrites key name = false ∧
        (s.step op).valueAt (.named name) key = s.valueAt (.named name) key) ∨
      ((op.overwrites key name = true ∨ s.valueAt (.named name) key = none) ∧
        op.toShared = false ∧ (s.step op).valueAt (.named name) key = op.value? key) := by
  cases op with
  | entry slot =>
      obtain ⟨-, hkept⟩ | ⟨⟨-, hsome⟩, -⟩ := s.valueAt_edit key slot (.named name) .mention
      · exact .inl ⟨rfl, hkept⟩
      · cases hsome
  | option slot scope setting raw =>
      have hedit := s.valueAt_edit key slot (.named name) (Operation.edit scope setting raw)
      cases slot with
      | shared other =>
          obtain ⟨-, hkept⟩ | ⟨⟨hslot, -⟩, -⟩ := hedit
          · exact .inl ⟨rfl, hkept⟩
          · cases hslot
      | named other =>
          obtain ⟨hnot, hkept⟩ | ⟨⟨hslot, hsome⟩, hgiven⟩ := hedit
          · left
            refine ⟨?_, hkept⟩
            rw [Operation.overwrites, Bool.and_eq_false_imp]
            exact fun hname => Bool.eq_false_iff.2 fun hsome =>
              hnot ⟨congrArg some (beq_iff_eq.1 hname), hsome⟩
          · right
            refine ⟨.inl ?_, rfl, hgiven⟩
            rw [Operation.overwrites, hsome, Bool.and_true, beq_iff_eq]
            exact Option.some.inj hslot
  | add c =>
      have hfound : (s.add c).find? name =
          (s.find? name).or (if c.name = name then some c else none) := by
        simp only [ConfigurationSet.find?, ConfigurationSet.add, List.find?_append,
          List.find?_singleton, beq_iff_eq]
      unfold valueAt at? step
      simp only [hfound]
      cases hold : s.find? name with
      | some own => exact .inl ⟨rfl, rfl⟩
      | none =>
          by_cases hname : c.name = name
          · exact .inr ⟨.inr rfl, rfl, by simp [hname, Operation.value?]⟩
          · exact .inl ⟨rfl, by simp [hname]⟩
  | setShared c => exact .inl ⟨rfl, rfl⟩
  | applyShared =>
      obtain happlied | hother := h
      · exact .inl ⟨rfl, by rw [step, applyShared_of_applied happlied]⟩
      · exact absurd rfl hother

end Step

/-! ## What a history does -/

section Run

variable {key : SettingKey} {m : String}

theorem sharedApplied_run (s : ConfigurationSet) (history : List Operation) :
    (s.run history).sharedApplied = true ↔
      s.sharedApplied = true ∨ .applyShared ∈ history := by
  induction history generalizing s with
  | nil => simp [run]
  | cons op rest ih =>
      have hrest := ih (s.step op)
      rw [sharedApplied_step] at hrest
      change ((s.step op).run rest).sharedApplied = true ↔ _
      rw [hrest, List.mem_cons, or_assoc, eq_comm (a := op)]

/-- The shared configuration never has an entry more often than it was given. -/
theorem count_sharedValue_run (s : ConfigurationSet) (history : List Operation) :
    (listed ((s.run history).sharedValue key)).count m ≤
      (listed (s.sharedValue key)).count m +
        (history.flatMap fun op => listed (op.value? key)).count m := by
  induction history generalizing s with
  | nil => exact Nat.le_refl _
  | cons op rest ih =>
      have hrest := ih (s.step op)
      rw [List.flatMap_cons, List.count_append]
      change (listed (((s.step op).run rest).sharedValue key)).count m ≤ _
      rcases s.sharedValue_step key op with hstep | hstep
      · rw [hstep] at hrest
        omega
      · rw [hstep] at hrest
        omega

/-- Before the shared configuration is merged in, no named one has what only the shared one was
given. -/
theorem without_run {s : ConfigurationSet} {history : List Operation} {name : String}
    (hs : Without m (s.valueAt (.named name) key))
    (hhistory : ∀ op ∈ history, op.toShared = false → Without m (op.value? key))
    (hnot : .applyShared ∉ history) :
    Without m ((s.run history).valueAt (.named name) key) := by
  induction history generalizing s with
  | nil => exact hs
  | cons op rest ih =>
      rw [List.mem_cons, not_or] at hnot
      refine ih ?_ (fun other hother => hhistory other (List.mem_cons_of_mem _ hother)) hnot.2
      rcases s.valueAt_named_step key name (.inr (Ne.symm hnot.1)) with h | h
      · rw [h.2]
        exact hs
      · rw [h.2.2]
        exact hhistory op List.mem_cons_self h.2.1

/-- After the shared configuration was merged in, a named one loses what it got when its value is
overwritten, and never gets it again. -/
theorem count_valueAt_run {s : ConfigurationSet} {history : List Operation} {name : String}
    (hs : s.sharedApplied = true)
    (hhistory : ∀ op ∈ history, op.toShared = false → Without m (op.value? key)) :
    (listed ((s.run history).valueAt (.named name) key)).count m =
      if history.any (Operation.overwrites key name) then 0
      else (listed (s.valueAt (.named name) key)).count m := by
  induction history generalizing s with
  | nil => rfl
  | cons op rest ih =>
      have happlied : (s.step op).sharedApplied = true := (s.sharedApplied_step op).2 (.inl hs)
      change (listed (((s.step op).run rest).valueAt (.named name) key)).count m = _
      rw [ih happlied fun other hother => hhistory other (List.mem_cons_of_mem _ hother),
        List.any_cons]
      rcases s.valueAt_named_step key name (.inl hs) with ⟨hkept, hvalue⟩ | ⟨hwhy, hto, hvalue⟩
      · rw [hvalue, hkept, Bool.false_or]
      · have hzero := (hhistory op List.mem_cons_self hto).count_eq_zero
        rw [hvalue, hzero, ite_self]
        rcases hwhy with hover | hnew
        · rw [hover, Bool.true_or, if_pos rfl]
        · rw [hnew]
          exact (ite_self _).symm

end Run

/-! ## What a child gets -/

theorem valueAt_applyShared {s : ConfigurationSet} (hs : s.sharedApplied = false) (name : String)
    (key : SettingKey) :
    s.applyShared.valueAt (.named name) key =
      (s.find? name).bind fun c => SettingValue.combine (c.get? key) (s.sharedValue key) := by
  unfold valueAt at? sharedValue
  simp only [find?_applyShared hs]
  cases s.find? name with
  | none => rfl
  | some c =>
      simp only [Option.map_some, Option.bind_some, withShared]
      cases s.shared with
      | some shared => exact c.get?_merge shared key
      | none =>
          change c.get? key = SettingValue.combine (c.get? key) none
          cases c.get? key with
          | none => rfl
          | some value => cases value <;> rfl

section Child

variable {key : SettingKey} {m : String} {c : Configuration}

/-- The entry comes from the configuration of the same name if the shared one was merged into that,
and from the shared one otherwise. -/
theorem count_mergeInto {parent : ConfigurationSet} (hc : Without m (c.get? key))
    (hown : parent.sharedApplied = false → Without m (parent.valueAt (.named c.name) key)) :
    (listed ((parent.mergeInto c).get? key)).count m =
      if parent.sharedApplied = true ∧ c.name ∈ parent.names then
        (listed (parent.valueAt (.named c.name) key)).count m
      else (listed (parent.sharedValue key)).count m := by
  have hnames : c.name ∈ parent.names ↔ (parent.find? c.name).isSome := by
    rw [← Decidable.not_iff_not, ← find?_eq_none_iff, Option.not_isSome_iff_eq_none]
  simp only [hnames]
  unfold mergeInto valueAt sharedValue at *
  simp only [at?] at *
  cases hfound : parent.find? c.name with
  | none =>
      cases hshared : parent.shared with
      | none => simpa using hc.count_eq_zero
      | some shared => simpa using hc.count_combine
  | some own =>
      rw [hfound] at hown
      cases happlied : parent.sharedApplied with
      | true => cases hshared : parent.shared <;> simpa using hc.count_combine
      | false =>
          have hboth := hc.combine (hown happlied)
          cases hshared : parent.shared with
          | none => simpa using hboth.count_eq_zero
          | some shared => simpa using hboth.count_combine

variable {history : List Operation}

/-- Of all the operations only one gives the entry, once and to the shared configuration, and none
after it takes it away again. -/
structure SharedOnce (key : SettingKey) (m : String) (history : List Operation) : Prop where
  onlyShared : ∀ op ∈ history, op.toShared = false → Without m (op.value? key)
  once : (history.flatMap fun op => listed (op.value? key)).count m = 1
  kept : m ∈ listed ((empty.run history).sharedValue key)

/--
The set has no configuration of this name, or its shared one is merged into none, or this one was
there and the entry in the shared one when that was merged in, and it was not overwritten since.
-/
def InTime (key : SettingKey) (m : String) (history : List Operation) (name : String) : Prop :=
  name ∉ (empty.run history).names ∨ .applyShared ∉ history ∨
    ∃ before after, history = before ++ .applyShared :: after ∧ .applyShared ∉ before ∧
      name ∈ (empty.run before).names ∧ m ∈ listed ((empty.run before).sharedValue key) ∧
      after.any (Operation.overwrites key name) = false

theorem applied_run_iff : (empty.run history).sharedApplied = true ↔ .applyShared ∈ history := by
  rw [sharedApplied_run, or_iff_right]
  exact Bool.false_ne_true

theorem SharedOnce.count_sharedValue_le (h : SharedOnce key m history)
    {before after : List Operation} (hhistory : history = before ++ after) :
    (listed ((empty.run before).sharedValue key)).count m ≤ 1 := by
  have hgiven := @count_sharedValue_run key m empty before
  have honce := h.once
  rw [hhistory, List.flatMap_append, List.count_append] at honce
  have hempty : (listed (empty.sharedValue key)).count m = 0 := rfl
  omega

/-- What a named configuration has of the entry is decided when the shared one is merged in. -/
theorem SharedOnce.count_valueAt (h : SharedOnce key m history) {before after : List Operation}
    (hhistory : history = before ++ .applyShared :: after) (hfirst : .applyShared ∉ before)
    (name : String) :
    (listed ((empty.run history).valueAt (.named name) key)).count m =
      if after.any (Operation.overwrites key name) then 0
      else if name ∈ (empty.run before).names then
        (listed ((empty.run before).sharedValue key)).count m
      else 0 := by
  have hbefore : ∀ op ∈ before, op.toShared = false → Without m (op.value? key) := by
    intro op hop
    exact h.onlyShared op (hhistory ▸ List.mem_append_left _ hop)
  have hafter : ∀ op ∈ after, op.toShared = false → Without m (op.value? key) := by
    intro op hop
    exact h.onlyShared op (hhistory ▸ List.mem_append_right _ (List.mem_cons_of_mem _ hop))
  have hlacks : Without m ((empty.run before).valueAt (.named name) key) :=
    without_run SettingValue.without_none hbefore hfirst
  have hunapplied := Bool.eq_false_iff.2 (mt applied_run_iff.1 hfirst)
  have happlied : (empty.run before).applyShared.sharedApplied = true := by
    rw [applyShared_eq hunapplied]
  have hmerged : (listed ((empty.run before).applyShared.valueAt (.named name) key)).count m =
      if name ∈ (empty.run before).names then
        (listed ((empty.run before).sharedValue key)).count m
      else 0 := by
    rw [valueAt_applyShared hunapplied]
    by_cases hname : name ∈ (empty.run before).names
    · obtain ⟨own, hown⟩ :=
        Option.ne_none_iff_exists'.1 (mt find?_eq_none_iff.1 (not_not_intro hname))
      rw [valueAt, at?, hown] at hlacks
      rw [if_pos hname, hown]
      exact Without.count_combine hlacks
    · rw [if_neg hname, find?_eq_none_iff.2 hname]
      rfl
  rw [hhistory, run_append]
  change (listed (((empty.run before).applyShared.run after).valueAt _ key)).count m = _
  rw [count_valueAt_run happlied hafter, hmerged]

theorem SharedOnce.count_sharedValue (h : SharedOnce key m history) :
    (listed ((empty.run history).sharedValue key)).count m = 1 := by
  have hle := h.count_sharedValue_le (List.append_nil history).symm
  have hpos := List.count_pos_iff.2 h.kept
  omega

theorem SharedOnce.count_valueAt_iff (h : SharedOnce key m history)
    (hmem : .applyShared ∈ history) {name : String} (hname : name ∈ (empty.run history).names) :
    (listed ((empty.run history).valueAt (.named name) key)).count m ≤ 1 ∧
      ((listed ((empty.run history).valueAt (.named name) key)).count m = 1 ↔
        InTime key m history name) := by
  obtain ⟨before, after, hhistory, hfirst⟩ := List.eq_append_cons_of_mem hmem
  constructor
  · have hle := h.count_sharedValue_le hhistory
    rw [h.count_valueAt hhistory hfirst]
    repeat' split
    all_goals omega
  · constructor
    · intro hone
      rw [h.count_valueAt hhistory hfirst] at hone
      split at hone
      · cases hone
      · next hkept =>
          split at hone
          · next hthere =>
              have hgiven := List.count_pos_iff.1 (hone ▸ Nat.one_pos)
              exact .inr (.inr ⟨before, after, hhistory, hfirst, hthere, hgiven,
                Bool.eq_false_iff.2 hkept⟩)
          · cases hone
    · rintro (hnew | hnever | ⟨before, after, hhistory, hfirst, hthere, hgiven, hkept⟩)
      · exact absurd hname hnew
      · exact absurd hmem hnever
      · have hle := h.count_sharedValue_le hhistory
        have hpos := List.count_pos_iff.2 hgiven
        rw [h.count_valueAt hhistory hfirst, hkept, if_neg Bool.false_ne_true, if_pos hthere]
        omega

/-- One configuration of a child: the entry never arrives twice, and in time it arrives. -/
theorem SharedOnce.count_mergeInto_run (h : SharedOnce key m history)
    (hc : Without m (c.get? key)) :
    (listed (((empty.run history).mergeInto c).get? key)).count m ≤ 1 ∧
      ((listed (((empty.run history).mergeInto c).get? key)).count m = 1 ↔
        InTime key m history c.name) := by
  have hown : (empty.run history).sharedApplied = false →
      Without m ((empty.run history).valueAt (.named c.name) key) := by
    intro hunapplied
    refine without_run SettingValue.without_none h.onlyShared ?_
    exact mt applied_run_iff.2 (Bool.eq_false_iff.1 hunapplied)
  rw [count_mergeInto hc hown]
  by_cases hmerged : (empty.run history).sharedApplied = true ∧ c.name ∈ (empty.run history).names
  · rw [if_pos hmerged]
    exact h.count_valueAt_iff (applied_run_iff.1 hmerged.1) hmerged.2
  · rw [if_neg hmerged, h.count_sharedValue]
    refine ⟨Nat.le_refl 1, iff_of_true rfl ?_⟩
    by_cases hmem : .applyShared ∈ history
    · exact .inl fun hname => hmerged ⟨applied_run_iff.2 hmem, hname⟩
    · exact .inr (.inl hmem)

end Child

/--
A list entry that a set's history gives once, to the shared configuration only, is in no
configuration of a child twice after the child merged from the set. It is in all of them exactly if
the history came in time for each of their names.
-/
theorem mergeFrom_shared_once_iff {key : SettingKey} {m : String} {history : List Operation}
    {child : ConfigurationSet} (h : SharedOnce key m history)
    (hchild : ∀ c ∈ child.configurations, Without m (c.get? key)) :
    let merged := child.mergeFrom (empty.run history)
    (∀ c ∈ merged.configurations, (listed (c.get? key)).count m ≤ 1) ∧
      ((∀ c ∈ merged.configurations, (listed (c.get? key)).count m = 1) ↔
        ∀ name ∈ child.names, InTime key m history name) := by
  simp only [mergeFrom, names, List.forall_mem_map]
  constructor
  · intro c hc
    exact (h.count_mergeInto_run (hchild c hc)).1
  · exact forall₂_congr fun c hc => (h.count_mergeInto_run (hchild c hc)).2

/-- The shared configuration is merged in when everything is there. -/
def timelyHistory : List Operation :=
  [.entry (.named "Debug"), .option (.shared "S_shared") .compile "PreprocessorDefinitions" "M",
    .option (.named "Debug") .compile "PreprocessorDefinitions" "D", .applyShared]

/-- A named configuration is created after the shared one was merged in. -/
def lateHistory : List Operation :=
  [.option (.shared "S_shared") .compile "PreprocessorDefinitions" "M", .applyShared,
    .entry (.named "Debug")]

def silentChild : ConfigurationSet := (empty.ensure "Debug").ensure "Profile"

theorem mergeFrom_shared_once_iff_timely :
    SharedOnce 13 "M" timelyHistory ∧
      (∀ c ∈ silentChild.configurations, Without "M" (c.get? 13)) ∧
      ∀ c ∈ (silentChild.mergeFrom (empty.run timelyHistory)).configurations,
        (listed (c.get? 13)).count "M" = 1 := by
  have hhistory : SharedOnce 13 "M" timelyHistory :=
    ⟨by decide +kernel, by decide +kernel, by decide +kernel⟩
  have hchild : ∀ c ∈ silentChild.configurations, Without "M" (c.get? 13) := by decide +kernel
  refine ⟨hhistory, hchild, (mergeFrom_shared_once_iff hhistory hchild).2.2 ?_⟩
  have hnames : silentChild.names = ["Debug", "Profile"] := by decide +kernel
  rw [hnames, List.forall_mem_cons, List.forall_mem_singleton]
  refine ⟨.inr (.inr ⟨timelyHistory.dropLast, [], rfl, ?_⟩), .inl ?_⟩
  · decide +kernel
  · decide +kernel

theorem not_shared_once_late :
    SharedOnce 13 "M" lateHistory ∧
      (∀ c ∈ silentChild.configurations, Without "M" (c.get? 13)) ∧
      ¬∀ c ∈ (silentChild.mergeFrom (empty.run lateHistory)).configurations,
        (listed (c.get? 13)).count "M" = 1 := by
  refine ⟨⟨?_, ?_, ?_⟩, ?_, ?_⟩ <;> decide +kernel

end ConfigurationSet

end SolutionPlan
