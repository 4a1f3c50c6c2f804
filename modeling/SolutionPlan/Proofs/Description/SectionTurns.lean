import SolutionPlan.Proofs.Description.Turns

/-!
# A problem at its turn in an element

Reading an element is a sequence of sections, each for the children of certain names; the sections
that do not look at the place run alike, and the one that does has the turn. What the element
imports is read before, layer by layer.
-/

namespace SolutionPlan

variable {F S β : Type} {problem : F → Problem}

/-! ## Sections -/

/-- A part of reading an element, which looks at its children of certain names. -/
structure Section (S : Type) where
  looksAt : String → Bool
  run : List Node → S → Logged S

def Section.read (f : Section S) (n : Node) (s : S) : Logged S :=
  f.run (n.children.filter fun c => f.looksAt c.name) s

def readSections (sections : List (Section S)) (n : Node) (s : S) : Logged S :=
  sections.foldlM (fun s f => f.read n s) s

namespace Section

/-- Reads the first child of the name, or that there is none. -/
def first (name : String) (run : Option Node → S → Logged S) : Section S :=
  ⟨fun other => other == name, fun es => run es.head?⟩

def each (looksAt : String → Bool) (step : S → Node → Logged S) : Section S :=
  ⟨looksAt, fun es s => es.foldlM step s⟩

def gather (looksAt : String → Bool) (read : Node → Logged (List β)) : Section (List β) :=
  ⟨looksAt, fun es found => do
    let own ← collect es read
    pure (found ++ own)⟩

theorem read_first (name : String) (run : Option Node → S → Logged S) (n : Node) :
    (first name run).read n = run (n.first? name) := by
  unfold read first Node.first?
  simp only [List.head?_filter]

theorem read_each (name : String) (step : S → Node → Logged S) (n : Node) (s : S) :
    (each (· == name) step).read n s = (n.named name).foldlM step s := rfl

theorem read_gather (name : String) (f : Node → Logged (List β)) (n : Node) (found : List β) :
    (gather (· == name) f).read n found =
      collect (n.named name) f >>= fun own => pure (found ++ own) := rfl

/-- The sections come in the order of the ranks of the names that they look at. Where there is
nothing to look at, they record nothing. -/
structure InOrder (rank : String → Nat) (sections : List (Section S)) : Prop where
  ranked : sections.Pairwise fun f g =>
    ∀ a b, f.looksAt a = true → g.looksAt b = true → rank a < rank b
  level : ∀ f ∈ sections, ∀ a b, f.looksAt a = true → f.looksAt b = true → rank a = rank b
  silent : ∀ f ∈ sections, ∀ s, (f.run [] s).problems = []

structure Layered (rank : String → Nat) (sections : List (Section S)) : Prop
    extends InOrder rank sections where
  afterImports : ∀ f ∈ sections, ∀ a, f.looksAt a = true → rank "import" < rank a

end Section

theorem keeps_readSections {P : S → Prop} {sections : List (Section S)}
    (h : ∀ f ∈ sections, ∀ n s, P s → P (f.read n s).value) (n : Node) {s : S}
    (hs : P s) : P (readSections sections n s).value := by
  unfold readSections
  rw [Logged.foldlM_value]
  induction sections generalizing s with
  | nil => exact hs
  | cons f rest ih =>
      apply ih fun g hg => h g (List.mem_cons_of_mem _ hg)
      exact h f List.mem_cons_self n s hs

theorem readSections_congr {sections : List (Section S)} {n m : Node}
    (h : ∀ f ∈ sections, f.read n = f.read m) :
    readSections sections n = readSections sections m := by
  funext s
  unfold readSections
  induction sections generalizing s with
  | nil => rfl
  | cons f rest ih =>
      rw [List.foldlM_cons, List.foldlM_cons, h f List.mem_cons_self]
      congr 1
      funext t
      exact ih (fun g hg => h g (List.mem_cons_of_mem _ hg)) t

theorem problems_readSections_eq_nil {sections : List (Section S)} {n : Node}
    (h : ∀ f ∈ sections, ∀ s, (f.read n s).problems = []) (s : S) :
    (readSections sections n s).problems = [] := by
  unfold readSections
  induction sections generalizing s with
  | nil => rfl
  | cons f rest ih =>
      rw [List.foldlM_cons, Logged.bind_problems, h f List.mem_cons_self, List.nil_append]
      exact ih (fun g hg => h g (List.mem_cons_of_mem _ hg)) _

section FillSections

variable (frame : Frame F) {rank : String → Nat} {middle : At F → List Node}
  (roots : At F → List Imported) {name : String} (hnamed : ∀ x, ∀ e ∈ middle x, e.name = name)

include hnamed

theorem Section.read_fill_of_blind {f : Section S} (h : f.looksAt name = false) {x : At F}
    (hx : x ≠ .stop) :
    f.read (frame.fill rank name middle roots x) =
      f.read (frame.fill rank name middle roots .nothing) := by
  funext s
  unfold Section.read
  rw [filter_children_fill_of_blind frame roots hnamed _ h hx]

theorem Section.read_fill_of_lt {f : Section S}
    (h : ∀ other, f.looksAt other = true → rank other < rank name) (x : At F) :
    f.read (frame.fill rank name middle roots x) =
      f.read (frame.fill rank name middle roots .nothing) := by
  funext s
  unfold Section.read
  rw [filter_children_fill_of_lt frame roots hnamed _ h]

theorem Section.problems_read_stop {f : Section S} (hsilent : ∀ s, (f.run [] s).problems = [])
    (h : ∀ other, f.looksAt other = true → rank name < rank other) (s : S) :
    (f.read (frame.fill rank name middle roots .stop) s).problems = [] := by
  unfold Section.read
  rw [filter_children_stop_of_lt frame roots _ h (hnamed .stop)]
  exact hsilent s

/-- One section looks at the place. If that has the turn, reading has it. -/
theorem OneTurn.readSections {sections : List (Section S)} {f : Section S} {P : S → Prop}
    (horder : Section.InOrder rank sections)
    (hone : sections.filter (fun f => f.looksAt name) = [f])
    (hkeeps : ∀ g ∈ sections, ∀ n s, P s → P (g.read n s).value)
    (h : ∀ s, P s → OneTurn problem fun x => f.read (frame.fill rank name middle roots x) s)
    {s : S} (hs : P s) :
    OneTurn problem fun x =>
      SolutionPlan.readSections sections (frame.fill rank name middle roots x) s := by
  obtain ⟨front, back, rfl, hfront, hsees, hback⟩ := List.filter_eq_cons_iff.1 hone
  obtain ⟨-, hranked, hcross⟩ := List.pairwise_append.1 horder.ranked
  have hbefore (x : At F) := readSections_congr fun g hg =>
    Section.read_fill_of_lt frame roots hnamed
      (fun a ha => hcross g hg f List.mem_cons_self a name ha hsees) x
  have hafter (x : At F) (hx : x ≠ .stop) :
      SolutionPlan.readSections back (frame.fill rank name middle roots x) =
        SolutionPlan.readSections back (frame.fill rank name middle roots .nothing) :=
    readSections_congr fun g hg => Section.read_fill_of_blind frame roots hnamed
      (Bool.eq_false_iff.2 (List.filter_eq_nil_iff.1 hback g hg)) hx
  have hstop : ∀ s, (SolutionPlan.readSections back
      (frame.fill rank name middle roots .stop) s).problems = [] :=
    problems_readSections_eq_nil fun g hg => Section.problems_read_stop frame roots hnamed
      (horder.silent g (List.mem_append_right _ (List.mem_cons_of_mem _ hg)))
      fun a => List.rel_of_pairwise_cons hranked hg name a hsees
  have hparts (x : At F) (s : S) :
      SolutionPlan.readSections (front ++ f :: back) (frame.fill rank name middle roots x) s =
        SolutionPlan.readSections front (frame.fill rank name middle roots .nothing) s >>= fun s =>
          f.read (frame.fill rank name middle roots x) s >>= fun s =>
            SolutionPlan.readSections back (frame.fill rank name middle roots x) s := by
    rw [← hbefore x]
    unfold SolutionPlan.readSections
    rw [List.foldlM_append]
    rfl
  simp only [hparts]
  apply bind_right
  refine (h _ ?_).bind_left hafter hstop
  exact keeps_readSections (fun g hg => hkeeps g (List.mem_append_left _ hg)) _ hs

theorem OneTurn.each {looksAt : String → Bool} {step : S → Node → Logged S} {P : S → Prop}
    (hkeeps : ∀ s e, P s → P (step s e).value) (hsees : looksAt name = true)
    (hlevel : ∀ other, looksAt other = true → rank other = rank name)
    (h : ∀ s, P s → OneTurn problem fun x => (middle x).foldlM step s) {s : S} (hs : P s) :
    OneTurn problem fun x =>
      (Section.each looksAt step).read (frame.fill rank name middle roots x) s := by
  simp only [Section.read, Section.each,
    filter_children_fill_of_sees frame roots hnamed _ hsees hlevel]
  exact .foldlM hkeeps h _ _ hs

/-! Where nothing has to be kept, what looks at the place has the turn whatever was read before. -/

theorem OneTurn.readSections_of_forall {sections : List (Section S)} {f : Section S}
    (horder : Section.InOrder rank sections)
    (hone : sections.filter (fun f => f.looksAt name) = [f])
    (h : ∀ s, OneTurn problem fun x => f.read (frame.fill rank name middle roots x) s) (s : S) :
    OneTurn problem fun x =>
      SolutionPlan.readSections sections (frame.fill rank name middle roots x) s :=
  .readSections (P := fun _ => True) frame roots hnamed horder hone (fun _ _ _ _ _ => trivial)
    (fun s _ => h s) trivial

theorem OneTurn.each_of_forall {looksAt : String → Bool} {step : S → Node → Logged S}
    (hsees : looksAt name = true)
    (hlevel : ∀ other, looksAt other = true → rank other = rank name)
    (h : ∀ s, OneTurn problem fun x => (middle x).foldlM step s) (s : S) :
    OneTurn problem fun x =>
      (Section.each looksAt step).read (frame.fill rank name middle roots x) s :=
  .each (P := fun _ => True) frame roots hnamed (fun _ _ _ => trivial) hsees hlevel
    (fun s _ => h s) trivial

theorem OneTurn.gather {looksAt : String → Bool} {read : Node → Logged (List β)}
    (hsees : looksAt name = true)
    (hlevel : ∀ other, looksAt other = true → rank other = rank name)
    (h : OneTurn problem fun x => SolutionPlan.collect (middle x) read) (found : List β) :
    OneTurn problem fun x =>
      (Section.gather looksAt read).read (frame.fill rank name middle roots x) found := by
  simp only [Section.read, Section.gather,
    filter_children_fill_of_sees frame roots hnamed _ hsees hlevel]
  exact (h.collect _ _).bind_pure _

end FillSections

theorem name_of_mem_singleton {tree : At F → Node} {name : String}
    (hname : ∀ x, (tree x).name = name) (x : At F) : ∀ e ∈ [tree x], e.name = name := by
  intro e he
  rw [List.mem_singleton.1 he, hname]

theorem OneTurn.first {rank : String → Nat} {name : String} {run : Option Node → S → Logged S}
    {tree : At F → Node} (frame : Frame F) (roots : At F → List Imported)
    (hname : ∀ x, (tree x).name = name) (hnew : ∀ e ∈ frame.before, e.name ≠ name) {s : S}
    (h : OneTurn problem fun x => run (some (tree x)) s) :
    OneTurn problem fun x =>
      (Section.first name run).read (frame.fill rank name (fun x => [tree x]) roots x) s := by
  have hbefore : frame.before.filter (fun c => c.name == name) = [] := by
    rw [List.filter_eq_nil_iff]
    exact fun e he => mt beq_iff_eq.1 (hnew e he)
  have hread (x : At F) :
      (Section.first name run).read (frame.fill rank name (fun x => [tree x]) roots x) =
        run (some (tree x)) := by
    rw [Section.read_first, Node.first?, ← List.head?_filter]
    change run ((frame.fill rank name _ roots x).named name).head? = _
    rw [named_fill frame roots (name_of_mem_singleton hname), hbefore]
    rfl
  simpa only [hread] using h

/-! ## Layers -/

namespace Node

def readImports (read : Node → S → Logged S) (roots : List Imported) (s : S) : Logged S :=
  (importedLayers roots).foldlM
    (fun s layer =>
      match layer with
      | .problem p => do
          Logged.report p
          pure s
      | .element e => read e s)
    s

theorem readLayers_eq (read : Node → S → Logged S) (n : Node) (s : S) :
    n.readLayers read s = readImports read n.imports s >>= read n := by
  obtain ⟨tag, directory, children, imports⟩ := n
  unfold readLayers
  rw [layers, List.foldlM_append]
  simp only [List.foldlM_cons, List.foldlM_nil, bind_pure]
  rfl

theorem importedLayers_append (roots others : List Imported) :
    importedLayers (roots ++ others) = importedLayers roots ++ importedLayers others := by
  induction roots with
  | nil => rfl
  | cons first rest ih =>
      cases first with
      | failed p => rw [List.cons_append, importedLayers, importedLayers, ih, List.cons_append]
      | loaded root =>
          rw [List.cons_append, importedLayers, importedLayers, ih, List.append_assoc]

theorem readImports_append (read : Node → S → Logged S) (roots others : List Imported) (s : S) :
    readImports read (roots ++ others) s =
      readImports read roots s >>= readImports read others := by
  unfold readImports
  rw [importedLayers_append, List.foldlM_append]

theorem readImports_loaded (read : Node → S → Logged S) (root : Unit → Node) (s : S) :
    readImports read [.loaded root] s = (root ()).readLayers read s := by
  have hlayers : importedLayers [.loaded root] = (root ()).layers := by
    rw [importedLayers, importedLayers, List.append_nil]
  unfold readImports readLayers
  exact hlayers ▸ rfl

end Node

namespace OneTurn

variable {read : Node → S → Logged S} {P : S → Prop}

theorem keeps_readImports (hkeeps : ∀ n s, P s → P (read n s).value)
    (roots : List Imported) {s : S} (hs : P s) :
    P (Node.readImports read roots s).value := by
  unfold Node.readImports
  rw [Logged.foldlM_value]
  generalize Node.importedLayers roots = layers
  induction layers generalizing s with
  | nil => exact hs
  | cons layer rest ih =>
      cases layer with
      | problem p => exact ih hs
      | element e => exact ih (hkeeps e s hs)

theorem readLayers_own (hkeeps : ∀ n s, P s → P (read n s).value) (frame : Frame F)
    {rank : String → Nat} {name : String} (hname : name ≠ "import") {middle : At F → List Node}
    (h : ∀ s, P s → OneTurn problem fun x =>
      read (frame.fill rank name middle (fun _ => []) x) s) {s : S} (hs : P s) :
    OneTurn problem fun x =>
      (frame.fill rank name middle (fun _ => []) x).readLayers read s := by
  simp only [Node.readLayers_eq, Frame.imports_fill_of_ne _ _ _ _ _ hname]
  apply bind_right
  exact h _ (keeps_readImports hkeeps _ hs)

theorem readLayers_section (frame : Frame F) {rank : String → Nat} {middle : At F → List Node}
    {name : String} (hnamed : ∀ x, ∀ e ∈ middle x, e.name = name) {sections : List (Section S)}
    {f : Section S} (hlayered : Section.Layered rank sections)
    (hone : sections.filter (fun f => f.looksAt name) = [f])
    (hkeeps : ∀ g ∈ sections, ∀ n s, P s → P (g.read n s).value)
    (h : ∀ s, P s → OneTurn problem fun x =>
      f.read (frame.fill rank name middle (fun _ => []) x) s)
    {s : S} (hs : P s) :
    OneTurn problem fun x =>
      (frame.fill rank name middle (fun _ => []) x).readLayers
        (SolutionPlan.readSections sections) s := by
  have hname : name ≠ "import" := by
    rintro rfl
    obtain ⟨hf, hsees⟩ := List.mem_filter.1 (hone ▸ List.mem_singleton_self f)
    exact Nat.lt_irrefl _ (hlayered.afterImports f hf "import" hsees)
  refine readLayers_own (fun n s hs => keeps_readSections hkeeps n hs) frame hname ?_ hs
  exact fun s hs => readSections frame _ hnamed hlayered.toInOrder hone hkeeps h hs

theorem readLayers_of_forall (frame : Frame F) {rank : String → Nat}
    {middle : At F → List Node} {name : String}
    (hnamed : ∀ x, ∀ e ∈ middle x, e.name = name) {sections : List (Section S)} {f : Section S}
    (hlayered : Section.Layered rank sections)
    (hone : sections.filter (fun f => f.looksAt name) = [f])
    (h : ∀ s, OneTurn problem fun x => f.read (frame.fill rank name middle (fun _ => []) x) s)
    (s : S) :
    OneTurn problem fun x =>
      (frame.fill rank name middle (fun _ => []) x).readLayers
        (SolutionPlan.readSections sections) s :=
  .readLayers_section (P := fun _ => True) frame hnamed hlayered hone (fun _ _ _ _ _ => trivial)
    (fun s _ => h s) trivial

section Import

variable (frame : Frame F) {rank : String → Nat} {middle : At F → List Node}
  (hnamed : ∀ x, ∀ e ∈ middle x, e.name = "import") {sections : List (Section S)}
  (hlayered : Section.Layered rank sections)

include hnamed hlayered

/-- What an element says itself comes after its imports, and it says the same whatever they are. -/
theorem bind_own {roots : At F → List Imported} {run : At F → Logged S}
    (h : OneTurn problem run) :
    OneTurn problem fun x =>
      run x >>= SolutionPlan.readSections sections (frame.fill rank "import" middle roots x) := by
  refine h.bind_left ?after ?stop
  case after =>
    intro x hx
    refine readSections_congr fun f hf => Section.read_fill_of_blind frame roots hnamed ?_ hx
    exact Bool.eq_false_iff.2 fun hsees => Nat.lt_irrefl _ (hlayered.afterImports f hf _ hsees)
  case stop =>
    exact problems_readSections_eq_nil fun f hf => Section.problems_read_stop frame roots hnamed
      (hlayered.silent f hf) (hlayered.afterImports f hf)

theorem readLayers_imported {roots : At F → List Imported}
    (hkeeps : ∀ n s, P s → P (SolutionPlan.readSections sections n s).value)
    (h : ∀ s, P s → OneTurn problem fun x =>
      Node.readImports (SolutionPlan.readSections sections) (roots x) s) {s : S} (hs : P s) :
    OneTurn problem fun x =>
      (frame.fill rank "import" middle roots x).readLayers
        (SolutionPlan.readSections sections) s := by
  simp only [Node.readLayers_eq]
  refine bind_own frame hnamed hlayered ?_
  simp only [Frame.imports_fill, Node.readImports_append, bind_assoc]
  apply bind_right
  exact (h _ (keeps_readImports hkeeps _ hs)).bind_behind
    (Node.readImports (SolutionPlan.readSections sections)) (fun _ => rfl) _

theorem readLayers_failed {roots : At F → List Imported}
    (hroots : ∀ x, roots x = (x.problems problem).map Imported.failed) (s : S) :
    OneTurn problem fun x =>
      (frame.fill rank "import" middle roots x).readLayers
        (SolutionPlan.readSections sections) s := by
  refine readLayers_imported (P := fun _ => True) frame hnamed hlayered (fun _ _ _ => trivial) ?_
    trivial
  intro s _
  apply of_report
  · rw [hroots]
    rfl
  · intro flaw
    rw [hroots]
    rfl
  · rw [hroots]
    rfl

theorem readLayers_loaded (hkeeps : ∀ f ∈ sections, ∀ n s, P s → P (f.read n s).value)
    {root : At F → Node}
    (h : ∀ s, P s → OneTurn problem fun x =>
      (root x).readLayers (SolutionPlan.readSections sections) s) {s : S} (hs : P s) :
    OneTurn problem fun x =>
      (frame.fill rank "import" middle (fun x => [.loaded fun _ => root x]) x).readLayers
        (SolutionPlan.readSections sections) s := by
  refine readLayers_imported frame hnamed hlayered (fun n s hs => keeps_readSections hkeeps n hs)
    ?_ hs
  simpa only [Node.readImports_loaded] using h

end Import

end OneTurn

end SolutionPlan
