import SolutionPlan.Description.Settings

/-!
# A problem at its turn

Elements that differ in one place only are read by runs that differ in one problem only, which has
the same turn in all of them. Whoever does not look at the place runs alike, and in a list of
children the turn comes where the place is.
-/

namespace SolutionPlan

variable {F S α β : Type} {problem : F → Problem}

/-! ## One place -/

/-- What stands at a place: nothing, or a flaw. The tree may also stop there. Then only what is read
before the place is left of it. -/
inductive At (F : Type) where
  | nothing
  | flaw (flaw : F)
  | stop

namespace At

def problems (problem : F → Problem) : At F → List Problem
  | flaw f => [problem f]
  | nothing | stop => []

/-- What is left of a list, if that is read before the place which satisfies the test. -/
def kept (x : At F) (test : α → Bool) (xs : List α) : List α :=
  match x with
  | stop => xs.filter test
  | nothing | flaw _ => xs

def behind (x : At F) (xs : List α) : List α := x.kept (fun _ => false) xs

section

variable {x : At F} {test : α → Bool} {xs : List α}

theorem kept_of_ne (hx : x ≠ stop) : x.kept test xs = xs := by
  cases x with
  | nothing | flaw => rfl
  | stop => exact absurd rfl hx

theorem behind_of_ne (hx : x ≠ stop) : x.behind xs = xs := kept_of_ne hx

theorem behind_stop : (stop : At F).behind xs = [] := List.filter_eq_nil_iff.2 (by simp)

theorem kept_eq_self (h : ∀ a ∈ xs, test a = true) : x.kept test xs = xs := by
  cases x with
  | nothing | flaw => rfl
  | stop => exact List.filter_eq_self.2 h

theorem kept_eq_behind (h : ∀ a ∈ xs, test a = false) : x.kept test xs = x.behind xs := by
  cases x with
  | nothing | flaw => rfl
  | stop => exact List.filter_congr h

theorem filter_kept (x : At F) (test other : α → Bool) (xs : List α) :
    (x.kept test xs).filter other = x.kept test (xs.filter other) := by
  cases x with
  | nothing | flaw => rfl
  | stop => simp only [kept, List.filter_filter, Bool.and_comm]

end

end At

/-- The runs have one value, and what they record differs in the problem of the flaw, if there is a
flaw at all. It comes right after what is recorded if the tree stops there. -/
def OneTurn (problem : F → Problem) (run : At F → Logged α) : Prop :=
  ∃ value after, ∀ x, x ≠ .stop →
    run x = ⟨value, (run .stop).problems ++ x.problems problem ++ after⟩

namespace OneTurn

theorem of_report {run : At F → Logged α} {a : α} (hnothing : run .nothing = pure a)
    (hflaw : ∀ flaw, run (.flaw flaw) = ⟨a, [problem flaw]⟩) (hstop : (run .stop).problems = []) :
    OneTurn problem run := by
  refine ⟨a, [], ?_⟩
  intro x hx
  rw [hstop]
  cases x with
  | nothing => exact hnothing
  | flaw flaw => exact hflaw flaw
  | stop => exact absurd rfl hx

/-- What comes after the flaw is the same, and nothing comes after the end of the tree. -/
theorem bind_left {run : At F → Logged α} (h : OneTurn problem run)
    {next : At F → α → Logged β} (hnext : ∀ x, x ≠ .stop → next x = next .nothing)
    (hstop : ∀ a, (next .stop a).problems = []) :
    OneTurn problem fun x => run x >>= next x := by
  obtain ⟨value, after, hrun⟩ := h
  refine ⟨(next .nothing value).value, after ++ (next .nothing value).problems, ?_⟩
  intro x hx
  have hupTo : (run .stop >>= next .stop).problems = (run .stop).problems := by
    rw [Logged.bind_problems, hstop, List.append_nil]
  simp only [hupTo]
  rw [hrun x hx, hnext x hx, ← List.append_assoc]
  rfl

theorem bind_pure {run : At F → Logged α} (h : OneTurn problem run) (f : α → β) :
    OneTurn problem fun x => run x >>= fun a => pure (f a) := by
  refine h.bind_left ?_ fun _ => rfl
  exact fun _ _ => rfl

theorem bind_behind {γ : Type} {run : At F → Logged α} (h : OneTurn problem run)
    (next : List γ → α → Logged β) (hnil : ∀ a, (next [] a).problems = []) (after : List γ) :
    OneTurn problem fun x => run x >>= next (x.behind after) := by
  refine h.bind_left ?after ?stop
  case after =>
    intro x hx
    rw [At.behind_of_ne hx]
    rfl
  case stop =>
    rw [At.behind_stop]
    exact hnil

theorem bind_right (first : Logged α) {run : At F → α → Logged β}
    (h : OneTurn problem fun x => run x first.value) :
    OneTurn problem fun x => first >>= run x := by
  obtain ⟨value, after, hrun⟩ := h
  refine ⟨value, after, ?_⟩
  intro x hx
  have hrest : run x first.value = _ := hrun x hx
  simp only [Logged.bind_problems]
  change Logged.mk (run x first.value).value (first.problems ++ (run x first.value).problems) = _
  rw [hrest]
  simp only [List.append_assoc]

theorem foldlM {step : S → Node → Logged S} {P : S → Prop}
    (hkeeps : ∀ s e, P s → P (step s e).value) {middle : At F → List Node}
    (h : ∀ s, P s → OneTurn problem fun x => (middle x).foldlM step s)
    (before after : List Node) {s : S} (hs : P s) :
    OneTurn problem fun x => (before ++ middle x ++ x.behind after).foldlM step s := by
  simp only [List.foldlM_append, bind_assoc]
  apply bind_right
  refine (h _ ?_).bind_behind (fun es s => es.foldlM step s) (fun _ => rfl) after
  rw [Logged.foldlM_value]
  induction before generalizing s with
  | nil => exact hs
  | cons e rest ih => exact ih (hkeeps s e hs)

end OneTurn

theorem collect_append {γ : Type} (xs ys : List γ) (f : γ → Logged (List β)) :
    collect (xs ++ ys) f =
      collect xs f >>= fun first => collect ys f >>= fun found => pure (first ++ found) := by
  simp [collect]

theorem collect_singleton {γ : Type} (x : γ) (f : γ → Logged (List β)) : collect [x] f = f x := by
  simp [collect]

theorem OneTurn.collect {read : Node → Logged (List β)} {middle : At F → List Node}
    (h : OneTurn problem fun x => collect (middle x) read) (before after : List Node) :
    OneTurn problem fun x => SolutionPlan.collect (before ++ middle x ++ x.behind after) read := by
  simp only [collect_append, bind_assoc, pure_bind]
  apply bind_right
  refine h.bind_behind (fun es found => do
    let rest ← SolutionPlan.collect es read
    pure ((SolutionPlan.collect before read).value ++ found ++ rest)) ?_ after
  exact fun _ => rfl

/-! ## One place in an element -/

/-- An element but for some of its children and of its imports, and for its text. -/
structure Frame (F : Type) where
  tag : Xml.Tag
  text : At F → String
  directory : Path
  before : List Node
  after : List Node
  importedBefore : List Imported
  importedAfter : List Imported

namespace Frame

/-- The element with what stands at a place for children of this name. Children are read in the
order of the ranks of their names, and after the imports, which have a place under the name
`import`. -/
def fill (frame : Frame F) (rank : String → Nat) (name : String) (middle : At F → List Node)
    (roots : At F → List Imported) (x : At F) : Node :=
  .mk { frame.tag with text := frame.text x } frame.directory
    (x.kept (fun c => rank c.name ≤ rank name) frame.before ++ middle x ++
      x.kept (fun c => rank c.name < rank name) frame.after)
    (frame.importedBefore ++ roots x ++
      if name = "import" then x.behind frame.importedAfter else frame.importedAfter)

section

variable (frame : Frame F) (rank : String → Nat) (name : String) (middle : At F → List Node)
  (roots : At F → List Imported) (x : At F)

theorem attribute?_fill (key : String) :
    (frame.fill rank name middle roots x).attribute? key = frame.tag.attribute? key := rfl

theorem resolve_fill (text : String) :
    (frame.fill rank name middle roots x).resolve text = frame.directory.resolve text := rfl

theorem flag_fill (key : String) (fallback : Bool) :
    (frame.fill rank name middle roots x).flag key fallback =
      (frame.fill rank name middle roots .nothing).flag key fallback := rfl

theorem imports_fill :
    (frame.fill rank "import" middle roots x).imports =
      frame.importedBefore ++ roots x ++ x.behind frame.importedAfter := rfl

variable {name} in
theorem imports_fill_of_ne (hname : name ≠ "import") :
    (frame.fill rank name middle roots x).imports =
      frame.importedBefore ++ roots x ++ frame.importedAfter := by
  change frame.importedBefore ++ roots x ++ (if name = "import" then _ else _) = _
  rw [if_neg hname]

end

end Frame

section Fill

variable (frame : Frame F) {rank : String → Nat} {name : String} {middle : At F → List Node}
  (roots : At F → List Imported) (hnamed : ∀ x, ∀ e ∈ middle x, e.name = name)
  (looksAt : String → Bool)

theorem filter_children_fill (rank : String → Nat) (middle : At F → List Node) (x : At F) :
    ((frame.fill rank name middle roots x).children.filter fun c => looksAt c.name) =
      x.kept (fun c => rank c.name ≤ rank name) (frame.before.filter fun c => looksAt c.name) ++
          (middle x).filter (fun c => looksAt c.name) ++
        x.kept (fun c => rank c.name < rank name)
          (frame.after.filter fun c => looksAt c.name) := by
  simp only [Frame.fill, Node.children, List.filter_append, At.filter_kept]

theorem children_fill_of_level (middle : At F → List Node)
    (hlevel : ∀ other, rank other = rank name) (x : At F) :
    (frame.fill rank name middle roots x).children =
      frame.before ++ middle x ++ x.behind frame.after := by
  change x.kept _ frame.before ++ middle x ++ x.kept _ frame.after = _
  rw [At.kept_eq_self fun c _ => decide_eq_true (Nat.le_of_eq (hlevel c.name)),
    At.kept_eq_behind fun c _ => decide_eq_false (hlevel c.name ▸ Nat.lt_irrefl _)]

include hnamed

variable {looksAt} in
theorem filter_middle_of_blind (h : looksAt name = false) (x : At F) :
    (middle x).filter (fun c => looksAt c.name) = [] := by
  rw [List.filter_eq_nil_iff]
  intro e he
  rw [hnamed x e he, h]
  exact Bool.false_ne_true

/-- Whoever does not look at the place does not see what stands there. -/
theorem filter_children_fill_of_blind (h : looksAt name = false) {x : At F} (hx : x ≠ .stop) :
    ((frame.fill rank name middle roots x).children.filter fun c => looksAt c.name) =
      (frame.fill rank name middle roots .nothing).children.filter fun c => looksAt c.name := by
  simp only [filter_children_fill, filter_middle_of_blind hnamed h, At.kept_of_ne hx]
  rfl

/-- Children of lower rank are read before the place. -/
theorem filter_children_fill_of_lt (h : ∀ other, looksAt other = true → rank other < rank name)
    (x : At F) :
    ((frame.fill rank name middle roots x).children.filter fun c => looksAt c.name) =
      (frame.fill rank name middle roots .nothing).children.filter fun c => looksAt c.name := by
  have hblind : looksAt name = false :=
    Bool.eq_false_iff.2 fun hname => Nat.lt_irrefl _ (h name hname)
  have hlooks {es : List Node} {c : Node} (hc : c ∈ es.filter fun c => looksAt c.name) :
      rank c.name < rank name :=
    h _ (List.mem_filter.1 hc).2
  simp only [filter_children_fill, filter_middle_of_blind hnamed hblind]
  rw [At.kept_eq_self fun c hc => decide_eq_true (Nat.le_of_lt (hlooks hc)),
    At.kept_eq_self fun c hc => decide_eq_true (hlooks hc)]
  rfl

omit hnamed in
/-- Children of higher rank are read after the place. -/
theorem filter_children_stop_of_lt (h : ∀ other, looksAt other = true → rank name < rank other)
    (hnamed : ∀ e ∈ middle .stop, e.name = name) :
    ((frame.fill rank name middle roots .stop).children.filter fun c => looksAt c.name) = [] := by
  rw [List.filter_eq_nil_iff]
  intro c hc hlooks
  have hlt := h _ hlooks
  simp only [Frame.fill, Node.children, At.kept, List.mem_append, List.mem_filter,
    decide_eq_true_eq] at hc
  rcases hc with (⟨-, hle⟩ | hmiddle) | ⟨-, hlt'⟩
  · exact absurd hle (Nat.not_le.2 hlt)
  · exact Nat.lt_irrefl _ (hnamed c hmiddle ▸ hlt)
  · exact Nat.lt_asymm hlt hlt'

/-- Children of one rank are read in the order in which they stand. -/
theorem filter_children_fill_of_sees (h : looksAt name = true)
    (hlevel : ∀ other, looksAt other = true → rank other = rank name) (x : At F) :
    ((frame.fill rank name middle roots x).children.filter fun c => looksAt c.name) =
      frame.before.filter (fun c => looksAt c.name) ++ middle x ++
        x.behind (frame.after.filter fun c => looksAt c.name) := by
  have hall : (middle x).filter (fun c => looksAt c.name) = middle x := by
    rw [List.filter_eq_self]
    intro e he
    rw [hnamed x e he, h]
  have hlooks {es : List Node} {c : Node} (hc : c ∈ es.filter fun c => looksAt c.name) :
      rank c.name = rank name :=
    hlevel _ (List.mem_filter.1 hc).2
  rw [filter_children_fill, hall,
    At.kept_eq_self fun c hc => decide_eq_true (Nat.le_of_eq (hlooks hc)),
    At.kept_eq_behind fun c hc => decide_eq_false (hlooks hc ▸ Nat.lt_irrefl _)]

theorem named_fill (x : At F) :
    (frame.fill rank name middle roots x).named name =
      frame.before.filter (fun c => c.name == name) ++ middle x ++
        x.behind (frame.after.filter fun c => c.name == name) :=
  filter_children_fill_of_sees frame roots hnamed (· == name) (beq_self_eq_true name)
    (fun _ h => congrArg rank (beq_iff_eq.1 h)) x

theorem named_fill_of_ne {other : String} (hne : name ≠ other) {x : At F} (hx : x ≠ .stop) :
    (frame.fill rank name middle roots x).named other =
      (frame.fill rank name middle roots .nothing).named other :=
  filter_children_fill_of_blind frame roots hnamed (· == other) (beq_false_of_ne hne) hx

theorem named_fill_of_lt {other : String} (hlt : rank other < rank name) (x : At F) :
    (frame.fill rank name middle roots x).named other =
      (frame.fill rank name middle roots .nothing).named other :=
  filter_children_fill_of_lt frame roots hnamed (· == other) (fun _ h => beq_iff_eq.1 h ▸ hlt) x

omit hnamed in
theorem named_stop_of_lt {other : String} (hlt : rank name < rank other)
    (hnamed : ∀ e ∈ middle .stop, e.name = name) :
    (frame.fill rank name middle roots .stop).named other = [] :=
  filter_children_stop_of_lt frame roots (· == other) (fun _ h => beq_iff_eq.1 h ▸ hlt) hnamed

end Fill

end SolutionPlan
