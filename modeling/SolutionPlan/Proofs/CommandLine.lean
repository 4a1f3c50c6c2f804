import SolutionPlan.CommandLine
import SolutionPlan.Proofs.Parameters.Binding

/-!
# Arguments and parameters

What a list of arguments says is read off the arguments themselves. It decides which lists have a
path, and what becomes of the parameters that a document declares: a binding is refused, a value is
missing, or each of them has the value that the last argument for it gives.
-/

namespace SolutionPlan.CommandLine

/-! ## What an argument says -/

def bare (arguments : List String) : List String :=
  arguments.filter fun argument => !"--".toList.isPrefixOf argument.toList

/-- The argument gives the value to the name, which ends at the first equals sign. -/
inductive Gives : String → String → String → Prop
  | value {name : String} (value : String) (h : '=' ∉ name.toList) :
      Gives ("--" ++ name ++ "=" ++ value) name value
  | flag {name : String} (h : '=' ∉ name.toList) : Gives ("--" ++ name) name "true"

def LastGives (arguments : List String) (name value : String) : Prop :=
  ∃ front argument back, arguments = front ++ argument :: back ∧ Gives argument name value ∧
    ∀ later ∈ back, ∀ other, ¬ Gives later name other

def NotGiven (arguments : List String) (name : String) : Prop :=
  ∀ argument ∈ arguments, ∀ value, ¬ Gives argument name value

def binding? (argument : String) : Option (String × String) :=
  match argument.toList with
  | '-' :: '-' :: written => some (binding written)
  | _ => none

theorem gives_binding (written : List Char) :
    Gives (String.ofList ('-' :: '-' :: written)) (binding written).1 (binding written).2 := by
  by_cases hmem : '=' ∈ written
  · obtain ⟨name, value, rfl, hname⟩ := List.eq_append_cons_of_mem hmem
    have hfree : '=' ∉ (String.ofList name).toList := by simpa using hname
    convert Gives.value (String.ofList value) hfree using 1
    · simp [← String.toList_inj]
    · simp [binding, Text.cutAt?_append hname]
    · simp [binding, Text.cutAt?_append hname]
  · have hfree : '=' ∉ (String.ofList written).toList := by simpa using hmem
    convert Gives.flag hfree using 1
    · simp [← String.toList_inj]
    · simp [binding, Text.cutAt?_of_not_mem hmem]
    · simp [binding, Text.cutAt?_of_not_mem hmem]

theorem binding?_eq_some_iff {argument name value : String} :
    binding? argument = some (name, value) ↔ Gives argument name value := by
  constructor
  · intro h
    unfold binding? at h
    split at h
    · next written hwritten =>
        have hgives := gives_binding written
        rw [← hwritten, String.ofList_toList] at hgives
        rwa [Option.some.inj h] at hgives
    · cases h
  · intro h
    cases h with
    | value value h => simp [binding?, binding, Text.cutAt?_append h]
    | flag h => simp [binding?, binding, Text.cutAt?_of_not_mem h]

theorem binding?_eq_none_iff {argument : String} :
    binding? argument = none ↔ "--".toList.isPrefixOf argument.toList = false := by
  unfold binding?
  split
  · next written hwritten => simp [hwritten]
  · next hother =>
      simp only [true_iff, ← Bool.not_eq_true, List.isPrefixOf_iff_prefix]
      rintro ⟨written, hwritten⟩
      exact hother written hwritten.symm

/-! ## Splitting -/

def bindings (arguments : List String) : List (String × String) := arguments.filterMap binding?

theorem bare_cons (argument : String) (rest : List String) :
    bare (argument :: rest) =
      if binding? argument = none then argument :: bare rest else bare rest := by
  simp only [bare, List.filter_cons, binding?_eq_none_iff, Bool.not_eq_true']

theorem splitArgument_eq (found : Option Path) (read : List (String × String))
    (argument : String) :
    splitArgument (found, read) argument =
      match binding? argument, found with
      | some b, _ => .ok (found, read ++ [b])
      | none, none => .ok (some ⟨argument⟩, read)
      | none, some _ => .error (.unexpectedArgument argument) := by
  unfold splitArgument binding?
  split <;> simp_all

/-- Behind the path there are only bindings. -/
theorem foldlM_splitArgument_some (path : Path) (read : List (String × String))
    (arguments : List String) :
    arguments.foldlM splitArgument (some path, read) =
      match bare arguments with
      | [] => .ok (some path, read ++ bindings arguments)
      | second :: _ => .error (.unexpectedArgument second) := by
  induction arguments generalizing read with
  | nil => simp [bare, bindings, pure, Except.pure]
  | cons argument rest ih =>
      rw [List.foldlM_cons, splitArgument_eq, bare_cons, bindings, List.filterMap_cons]
      cases binding? argument with
      | none => rfl
      | some b =>
          change rest.foldlM splitArgument (some path, read ++ [b]) = _
          simp [ih, bindings]

theorem foldlM_splitArgument_none (read : List (String × String)) (arguments : List String) :
    arguments.foldlM splitArgument (none, read) =
      match bare arguments with
      | [] => .ok (none, read ++ bindings arguments)
      | [path] => .ok (some ⟨path⟩, read ++ bindings arguments)
      | _ :: second :: _ => .error (.unexpectedArgument second) := by
  induction arguments generalizing read with
  | nil => simp [bare, bindings, pure, Except.pure]
  | cons argument rest ih =>
      rw [List.foldlM_cons, splitArgument_eq, bare_cons, bindings, List.filterMap_cons]
      cases binding? argument with
      | none =>
          change rest.foldlM splitArgument (some ⟨argument⟩, read) = _
          rw [foldlM_splitArgument_some]
          cases bare rest <;> rfl
      | some b =>
          change rest.foldlM splitArgument (none, read ++ [b]) = _
          simp [ih, bindings]

theorem split_eq (arguments : List String) :
    split arguments =
      match bare arguments with
      | [] => .error .missingInput
      | [path] => .ok ⟨⟨path⟩, bindings arguments⟩
      | _ :: second :: _ => .error (.unexpectedArgument second) := by
  rw [split, foldlM_splitArgument_none]
  cases bare arguments with
  | nil => rfl
  | cons path rest => cases rest <;> rfl

example : split ["--out=a=b", "build.xml", "--tools"] =
    .ok ⟨⟨"build.xml"⟩, [("out", "a=b"), ("tools", "true")]⟩ := by
  cbv

/-! ## The last argument for a name -/

theorem lastGives_concat {front : List String} {argument name value : String} :
    LastGives (front ++ [argument]) name value ↔
      Gives argument name value ∨
        (∀ other, ¬ Gives argument name other) ∧ LastGives front name value := by
  constructor
  · rintro ⟨before, given, behind, hsplit, hgives, hlast⟩
    rcases List.eq_nil_or_concat behind with rfl | ⟨behind, last, rfl⟩
    · obtain ⟨-, rfl⟩ := List.append_singleton_inj.1 hsplit
      exact .inl hgives
    · rw [List.concat_eq_append, ← List.cons_append, ← List.append_assoc] at hsplit
      obtain ⟨rfl, rfl⟩ := List.append_singleton_inj.1 hsplit
      refine .inr ⟨hlast argument (by simp), before, given, behind, rfl, hgives, ?_⟩
      exact fun later hlater => hlast later (by simp [hlater])
  · rintro (hgives | ⟨hnot, before, given, behind, rfl, hgives, hlast⟩)
    · exact ⟨front, argument, [], rfl, hgives, by simp⟩
    · refine ⟨before, given, behind ++ [argument], by simp, hgives, fun later hlater => ?_⟩
      rcases List.mem_append.1 hlater with hlater | hlater
      · exact hlast later hlater
      · exact List.mem_singleton.1 hlater ▸ hnot

theorem lookup_bindings_eq_some_iff {arguments : List String} {name value : String} :
    (bindings arguments).reverse.lookup name = some value ↔ LastGives arguments name value := by
  induction arguments using List.reverseRecOn with
  | nil => simp [bindings, LastGives]
  | append_singleton front argument ih =>
      rw [lastGives_concat, ← ih, bindings, List.filterMap_append, List.reverse_append,
        List.lookup_append, Option.or_eq_some_iff, bindings]
      simp only [← binding?_eq_some_iff]
      cases hbinding : binding? argument with
      | none => simp [hbinding]
      | some b =>
          obtain ⟨given, last⟩ := b
          have hone : [argument].filterMap binding? = [(given, last)] := by simp [hbinding]
          by_cases h : name = given
          · simp [hone, h]
          · simp [hone, List.lookup_cons, beq_false_of_ne h, Ne.symm h]

theorem lookup_bindings_eq_none_iff {arguments : List String} {name : String} :
    (bindings arguments).reverse.lookup name = none ↔ NotGiven arguments name := by
  simp only [List.lookup_eq_none_iff, List.mem_reverse, bindings, List.mem_filterMap, NotGiven,
    ← binding?_eq_some_iff]
  constructor
  · intro h argument hargument value hgives
    simpa using h (name, value) ⟨argument, hargument, hgives⟩
  · rintro h b ⟨argument, hargument, hgives⟩
    simpa using fun hname : name = b.1 => h argument hargument b.2 (by rw [hgives, hname])

/-! ## What becomes of the parameters -/

def AllKnown (arguments : List String) (root : Xml.Element) : Prop :=
  ∀ argument ∈ arguments, ∀ name value, Gives argument name value →
    name ∈ Parameters.declaredNames root

def Missing (arguments : List String) (root : Xml.Element) (name : String) : Prop :=
  NotGiven arguments name ∧ Parameters.lastDefault? root name = none

inductive Settles (arguments : List String) (root : Xml.Element) :
    Except BuildError Parameters → Prop
  | unknown {front back : List String} {argument name value : String}
      (split : arguments = front ++ argument :: back) (earlier : AllKnown front root)
      (gives : Gives argument name value) (undeclared : name ∉ Parameters.declaredNames root) :
      Settles arguments root (.error (.unknownOption name (Parameters.declaredNames root)))
  | required {front back : List String} {name : String} (known : AllKnown arguments root)
      (split : Parameters.declaredNames root = front ++ name :: back)
      (earlier : ∀ other ∈ front, ¬ Missing arguments root other)
      (missing : Missing arguments root name) :
      Settles arguments root (.error (.requiredOption name (Parameters.declaredNames root)))
  | settled {ps : Parameters} (known : AllKnown arguments root)
      (names : ps.names = Parameters.declaredNames root)
      (given : ∀ name ∈ ps.names, ∀ value, LastGives arguments name value →
        ps.value? name = some value)
      (default : ∀ name ∈ ps.names, NotGiven arguments name →
        ps.value? name = Parameters.lastDefault? root name)
      (present : ∀ name ∈ ps.names, ∃ value, ps.value? name = some value) :
      Settles arguments root (.ok ps)

theorem allKnown_iff {arguments : List String} {root : Xml.Element} :
    AllKnown arguments root ↔
      ∀ b ∈ bindings arguments, b.1 ∈ (Parameters.declared root).names := by
  simp only [AllKnown, bindings, List.mem_filterMap, Parameters.names_declared,
    ← binding?_eq_some_iff]
  constructor
  · rintro h b ⟨argument, hargument, hgives⟩
    exact h argument hargument b.1 b.2 hgives
  · intro h argument hargument name value hgives
    exact h (name, value) ⟨argument, hargument, hgives⟩

theorem missing_iff {arguments : List String} {root : Xml.Element} {name : String} :
    Missing arguments root name ↔
      ((bindings arguments).reverse.lookup name).or (Parameters.lastDefault? root name) = none := by
  rw [Missing, ← lookup_bindings_eq_none_iff, Option.or_eq_none_iff]

/-- A binding that is refused is that of the first argument for an unknown name. -/
theorem settles_of_unknown {arguments : List String} {root : Xml.Element}
    {front back : List (String × String)} {b : String × String}
    (hsplit : bindings arguments = front ++ b :: back)
    (hfront : ∀ other ∈ front, other.1 ∈ (Parameters.declared root).names)
    (hb : b.1 ∉ (Parameters.declared root).names) :
    Settles arguments root
      (.error (.unknownOption b.1 (Parameters.declared root).names)) := by
  obtain ⟨before, rest, rfl, hbefore, hrest⟩ := List.filterMap_eq_append_iff.1 hsplit
  obtain ⟨silent, argument, behind, rfl, hsilent, hargument, -⟩ :=
    List.filterMap_eq_cons_iff.1 hrest
  have hknown : AllKnown (before ++ silent) root := by
    rw [allKnown_iff, bindings, List.filterMap_append, hbefore]
    simpa [List.filterMap_eq_nil_iff.2 hsilent] using hfront
  rw [Parameters.names_declared] at hb ⊢
  have hplace : before ++ (silent ++ argument :: behind) = before ++ silent ++ argument :: behind :=
    (List.append_assoc ..).symm
  exact .unknown hplace hknown (binding?_eq_some_iff.1 hargument) hb

/-- If all names are known, the values decide, and each is given last or declared last. -/
theorem settles_of_known {arguments : List String} {root : Xml.Element} {ps : Parameters}
    (hknown : ∀ b ∈ bindings arguments, b.1 ∈ (Parameters.declared root).names)
    (hps : (Parameters.declared root).bindAll (bindings arguments) = .ok ps)
    (hnames : ps.names = Parameters.declaredNames root) :
    Settles arguments root (ps.checkRequired >>= fun _ => .ok ps) := by
  have hvalue : ∀ name ∈ ps.names, ps.value? name =
      ((bindings arguments).reverse.lookup name).or (Parameters.lastDefault? root name) :=
    fun name hname => Parameters.value?_of_bindAll hps hknown (hnames ▸ hname)
  have hmissing : ∀ name ∈ ps.names, Missing arguments root name ↔ ps.value? name = none :=
    fun name hname => by rw [missing_iff, hvalue name hname]
  have hnodup : ps.names.Nodup := by
    rw [hnames, ← Parameters.names_declared]
    exact Parameters.nodup_names_declared root
  have hall := allKnown_iff.2 hknown
  rcases Parameters.checkRequired_cases hnodup with
    ⟨front, name, back, hsplit, hfront, hname, hcheck⟩ | ⟨hpresent, hcheck⟩
  · rw [hcheck, hnames]
    refine .required hall (hnames ▸ hsplit) (fun other hother => ?_) ?_
    · rw [hmissing other (by simp [hsplit, hother])]
      exact hfront other hother
    · rw [hmissing name (by simp [hsplit])]
      exact hname
  · rw [hcheck]
    refine .settled hall hnames (fun name hname value hgives => ?_) (fun name hname hnot => ?_) ?_
    · rw [hvalue name hname, lookup_bindings_eq_some_iff.2 hgives, Option.some_or]
    · rw [hvalue name hname, lookup_bindings_eq_none_iff.2 hnot, Option.none_or]
    · exact fun name hname => Option.ne_none_iff_exists'.1 (hpresent name hname)

theorem settles_ofDocument (arguments : List String) (root : Xml.Element) :
    Settles arguments root (Parameters.ofDocument root (bindings arguments)) := by
  rw [Parameters.ofDocument]
  rcases (Parameters.declared root).bindAll_cases (bindings arguments) with
    ⟨front, b, back, hsplit, hfront, hb, hbind⟩ | ⟨hknown, ps, hbind, hnames⟩
  · rw [hbind]
    exact settles_of_unknown hsplit hfront hb
  · rw [hbind]
    exact settles_of_known hknown hbind (hnames.trans (Parameters.names_declared root))

/-- There is one path among the arguments or the list is refused, and what the bindings come to in a
document is settled by the last argument for each name and the last declaration of it. -/
theorem arguments_settle_parameters (arguments : List String) (root : Xml.Element) :
    (bare arguments = [] ∧ split arguments = .error .missingInput) ∨
    (∃ path second rest, bare arguments = path :: second :: rest ∧
      split arguments = .error (.unexpectedArgument second)) ∨
    (∃ path read, bare arguments = [path] ∧ split arguments = .ok read ∧ read.path = ⟨path⟩ ∧
      Settles arguments root (Parameters.ofDocument root read.bindings)) := by
  rw [split_eq]
  rcases bare arguments with _ | ⟨path, _ | ⟨second, rest⟩⟩
  · exact .inl ⟨rfl, rfl⟩
  · exact .inr (.inr ⟨path, _, rfl, rfl, rfl, settles_ofDocument arguments root⟩)
  · exact .inr (.inl ⟨path, second, rest, rfl, rfl⟩)

end SolutionPlan.CommandLine
