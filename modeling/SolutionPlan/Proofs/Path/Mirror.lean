import Mathlib.Data.List.DropRight
import SolutionPlan.Proofs.Path.Canonical

/-!
# Mirrored directories

A directory is mirrored by going the way that leads to it from one base, but from another start.
The way climbs before it goes down, and the mirrored directory does not show what it climbs over. So
two directories can be mirrored alike, unless the start is named like the base or both ways climb
equally.
-/

namespace SolutionPlan

theorem exists_of_not_isSuffix {α : Type} {l m : List α} (h : ¬ l <:+ m) :
    ∃ front c back, l = front ++ c :: back ∧
      (m = back ∨ ∃ other d, d ≠ c ∧ m = other ++ d :: back) := by
  induction l using List.reverseRecOn generalizing m with
  | nil => exact absurd List.nil_suffix h
  | append_singleton l c ih =>
      rcases List.eq_nil_or_concat m with rfl | ⟨other, d, rfl⟩
      · exact ⟨l, c, [], rfl, .inl rfl⟩
      · by_cases hcd : d = c
        · subst hcd
          have hshorter : ¬ l <:+ other := by
            rintro ⟨t, rfl⟩
            exact h ⟨t, by simp⟩
          obtain ⟨front, c, back, rfl, hm⟩ := ih hshorter
          refine ⟨front, c, back ++ [d], by simp, ?_⟩
          rcases hm with rfl | ⟨other, e, hne, rfl⟩
          · exact .inl (by simp)
          · exact .inr ⟨other, e, hne, by simp⟩
        · exact ⟨l, c, [], rfl, .inr ⟨other, d, hcd, by simp⟩⟩

namespace Path

open Component

/-- Where the way that leads from the base to `p` ends if one starts elsewhere. -/
def mirror (start base p : Path) : Path := (start.join (p.relativeTo base)).normalize

def climb (base p : Path) : Nat := (way base p).count .parent

/-- The names of the base are the last names of the path. -/
def EndsIn (p base : Path) : Prop := base.normal.tail <:+ p.normal.tail

instance (p base : Path) : Decidable (p.EndsIn base) :=
  inferInstanceAs (Decidable (base.normal.tail <:+ p.normal.tail))

variable {start base p q : Path}

/-! ## The way from the base -/

/-- How a path is seen from a base: the names that both share, those that only the base has and
those that only the path has. -/
structure Seen (base p : Path) (shared up down : List Component) : Prop where
  base_normal : base.normal = .root :: (shared ++ up)
  normal : p.normal = .root :: (shared ++ down)
  way : way base p = List.replicate up.length .parent ++ down
  names : ∀ c ∈ down, c.IsName

theorem exists_seen (hbase : base.isAbsolute = true) (hp : p.isAbsolute = true) :
    ∃ shared up down, Seen base p shared up down := by
  obtain ⟨names, hnormal, hnames⟩ := normal_of_isAbsolute hp
  obtain ⟨others, hothers, -⟩ := normal_of_isAbsolute hbase
  obtain ⟨shared, up, down, rfl, rfl, hway⟩ :=
    exists_relativeComponents (fun c hc => (hnames c hc).1) others
  refine ⟨shared, up, down, hothers, hnormal, ?_, ?_⟩
  · unfold Path.way
    rw [hnormal, hothers]
    simpa [relativeComponents] using hway
  · exact fun c hc => (hnames c (List.mem_append_right shared hc)).1

theorem Seen.climb_eq {shared up down : List Component} (h : Seen base p shared up down) :
    climb base p = up.length := by
  have hnone : down.count .parent = 0 := List.count_eq_zero.2 fun hmem => h.names _ hmem
  unfold climb
  rw [h.way, List.count_append, List.count_replicate_self, hnone, Nat.add_zero]

theorem steps_of_isWay {cs : List Component} (h : IsWay cs) :
    (ofComponents cs).isAbsolute = false ∧ (ofComponents cs).steps = cs := by
  rw [ofComponents_eq h.isStep]
  cases cs with
  | nil => exact ⟨rfl, rfl⟩
  | cons c rest =>
      obtain ⟨d, s, hwritten, hd⟩ := written_cons_ne_slash (h.isStep c List.mem_cons_self) rest
      constructor
      · unfold isAbsolute ofList toList
        rw [String.toList_ofList, hwritten]
        simpa using hd
      · unfold steps ofList toList
        rw [String.toList_ofList, segments_written (List.cons_ne_nil c rest) h.isStep]
        exact filterMap_ofSegment? h.isStep

/-! ## The mirrored directory -/

theorem foldl_pushNormal_climb {names : List Component} (h : ∀ c ∈ names, c.IsName) (k : Nat) :
    (List.replicate k .parent).foldl pushNormal (names ++ [.root]) = names.drop k ++ [.root] := by
  induction k generalizing names with
  | zero => rfl
  | succ k ih =>
      rw [List.replicate_succ, List.foldl_cons]
      cases names with
      | nil =>
          have hroot := ih h
          rw [List.drop_nil] at hroot ⊢
          exact hroot
      | cons c below =>
          have hc := h c List.mem_cons_self
          cases c with
          | name text => exact ih fun d hd => h d (List.mem_cons_of_mem _ hd)
          | root | current | parent => exact hc.elim

/-- The mirrored directory is what is left of the start after climbing, and below it the names that
only the path has. -/
theorem normal_mirror (hstart : start.isAbsolute = true) {shared up down : List Component}
    (h : Seen base p shared up down) :
    (mirror start base p).normal = .root :: (start.normal.tail.rdrop up.length ++ down) := by
  obtain ⟨names, hnormal, hnames⟩ := normal_of_isAbsolute hstart
  have hisWay : IsWay (way base p) := ⟨up.length, down, h.way, h.names⟩
  obtain ⟨hrelative, hsteps⟩ := steps_of_isWay hisWay
  have hreversed : ∀ c ∈ names.reverse, c.IsName :=
    fun c hc => (hnames c (List.mem_reverse.1 hc)).1
  have hmirror : mirror start base p = (start.join (ofComponents (way base p))).normalize := rfl
  rw [hmirror, normal_normalize, normal_join hrelative, hsteps, h.way, hnormal, List.tail_cons,
    List.reverse_cons, List.foldl_append, foldl_pushNormal_climb hreversed,
    foldl_pushNormal_names h.names, List.rdrop_eq_reverse_drop_reverse]
  simp

theorem mirror_eq_iff :
    mirror start base p = mirror start base q ↔
      (mirror start base p).normal = (mirror start base q).normal :=
  ⟨fun h => by rw [h], eq_of_normal_eq (normalize_normalize _) (normalize_normalize _)⟩

/-- Under a start that is named like the base all names of the path are kept. -/
theorem normal_mirror_of_endsIn (hstart : start.isAbsolute = true) (hbase : base.isAbsolute = true)
    (hp : p.isAbsolute = true) {front : List Component}
    (hfront : front ++ base.normal.tail = start.normal.tail) :
    (mirror start base p).normal = .root :: (front ++ p.normal.tail) := by
  obtain ⟨shared, up, down, hseen⟩ := exists_seen hbase hp
  rw [normal_mirror hstart hseen, ← hfront, hseen.base_normal, hseen.normal, List.tail_cons,
    List.tail_cons, ← List.append_assoc front, List.rdrop_append_length, List.append_assoc]

section Injective

variable (hstart : start.isAbsolute = true) (hbase : base.isAbsolute = true)
  (hp : p.Canonical) (hq : q.Canonical)

include hstart hbase hp hq

/-- Ways that climb equally many levels lead to different places. -/
theorem eq_of_mirror_eq_of_climb (hclimb : climb base p = climb base q)
    (h : mirror start base p = mirror start base q) : p = q := by
  obtain ⟨shared, up, down, hseen⟩ := exists_seen hbase hp.absolute
  obtain ⟨others, climbed, along, hother⟩ := exists_seen hbase hq.absolute
  have hlength : up.length = climbed.length := by
    rw [← hseen.climb_eq, hclimb, hother.climb_eq]
  obtain ⟨hshared, -⟩ : shared = others ∧ up = climbed := by
    apply List.append_inj' _ hlength
    have hsame := hseen.base_normal.symm.trans hother.base_normal
    exact (List.cons.inj hsame).2
  have hdown : down = along := by
    rw [mirror_eq_iff, normal_mirror hstart hseen, normal_mirror hstart hother, hlength] at h
    exact List.append_cancel_left (List.cons.inj h).2
  apply eq_of_normal_eq hp.normalized hq.normalized
  rw [hseen.normal, hother.normal, hshared, hdown]

theorem eq_of_mirror_eq_of_endsIn (hends : start.EndsIn base)
    (h : mirror start base p = mirror start base q) : p = q := by
  obtain ⟨front, hfront⟩ := hends
  rw [mirror_eq_iff, normal_mirror_of_endsIn hstart hbase hp.absolute hfront,
    normal_mirror_of_endsIn hstart hbase hq.absolute hfront] at h
  have htail : p.normal.tail = q.normal.tail := List.append_cancel_left (List.cons.inj h).2
  obtain ⟨names, hnames, -⟩ := hp.exists_names
  obtain ⟨others, hothers, -⟩ := hq.exists_names
  apply eq_of_normal_eq hp.normalized hq.normalized
  rw [hnames, hothers] at htail ⊢
  exact congrArg (Component.root :: ·) htail

end Injective

/-! ## Directories that are mirrored alike -/

theorem seen_ofComponents {shared up down : List Component}
    (hnormal : base.normal = .root :: (shared ++ up)) (hshared : ∀ c ∈ shared, c.IsName)
    (hdown : ∀ c ∈ down, c.IsName)
    (hway : relativeComponents down up = List.replicate up.length .parent ++ down) :
    Seen base (ofComponents (.root :: (shared ++ down))) shared up down := by
  have hp := normal_ofComponents_root (List.forall_mem_append.2 ⟨hshared, hdown⟩)
  refine ⟨hnormal, hp, ?_, hdown⟩
  unfold Path.way
  rw [hnormal, hp, ← List.cons_append, ← List.cons_append, relativeComponents_append_append, hway]

theorem seen_above {shared up : List Component}
    (hnormal : base.normal = .root :: (shared ++ up)) (hshared : ∀ c ∈ shared, c.IsName) :
    Seen base (ofComponents (.root :: shared)) shared up [] := by
  have hway := relativeComponents_append_right [] up
  rw [List.nil_append] at hway
  have hseen : Seen base (ofComponents (.root :: (shared ++ []))) shared up [] :=
    seen_ofComponents hnormal hshared nofun (by rw [hway, List.append_nil])
  rw [List.append_nil] at hseen
  exact hseen

theorem seen_beside {shared up : List Component} {c d : Component}
    (hnormal : base.normal = .root :: (shared ++ c :: up)) (hshared : ∀ c ∈ shared, c.IsName)
    (hd : d.IsName) (hne : d ≠ c) :
    Seen base (ofComponents (.root :: (shared ++ [d]))) shared (c :: up) [d] := by
  have hroot : d ≠ .root := by
    rintro rfl
    exact hd
  apply seen_ofComponents hnormal hshared
  · simpa using hd
  · rw [relativeComponents, if_neg hne, if_neg hroot, List.map_const']

section Collision

variable {front back : List Component} {c : Component} (hstart : start.isAbsolute = true)
  (hbase : base.normal = .root :: (front ++ c :: back)) (hnames : ∀ d ∈ front ++ [c], d.IsName)

include hstart hbase hnames

theorem normal_mirror_through :
    (mirror start base (ofComponents (.root :: (front ++ [c])))).normal =
      .root :: start.normal.tail.rdrop back.length := by
  have hthrough : base.normal = .root :: ((front ++ [c]) ++ back) := by
    rw [hbase, List.append_assoc, List.singleton_append]
  rw [normal_mirror hstart (seen_above hthrough hnames), List.append_nil]

/-- Both ways climb over all of the start. -/
theorem mirror_through_eq_above (h : start.normal = .root :: back) :
    mirror start base (ofComponents (.root :: (front ++ [c]))) =
      mirror start base (ofComponents (.root :: front)) := by
  have habove := seen_above hbase (List.forall_mem_append.1 hnames).1
  rw [mirror_eq_iff, normal_mirror_through hstart hbase hnames, normal_mirror hstart habove, h]
  simp [List.rdrop]

/-- The one way ends where the other one comes down after climbing one level more. -/
theorem mirror_through_eq_beside {other : List Component} {d : Component}
    (h : start.normal = .root :: (other ++ d :: back)) (hd : d.IsName) (hne : d ≠ c) :
    mirror start base (ofComponents (.root :: (front ++ [c]))) =
      mirror start base (ofComponents (.root :: (front ++ [d]))) := by
  have hbeside := seen_beside hbase (List.forall_mem_append.1 hnames).1 hd hne
  have hkept : (other ++ d :: back).rdrop back.length = other ++ [d] := by
    rw [← List.singleton_append, ← List.append_assoc, List.rdrop_append_length]
  have hclimbed : (other ++ d :: back).rdrop (c :: back).length = other := by
    rw [List.length_cons, ← List.length_cons (a := d), List.rdrop_append_length]
  rw [mirror_eq_iff, normal_mirror_through hstart hbase hnames, normal_mirror hstart hbeside, h,
    List.tail_cons, hkept, hclimbed]

end Collision

/-- If the start is not named like the base, then some directory that leads to the base is mirrored
as another one is, which lies above it or beside it. -/
theorem exists_mirror_eq_of_not_endsIn (hstart : start.isAbsolute = true)
    (hbase : base.isAbsolute = true) (h : ¬ start.EndsIn base) :
    ∃ p q : Path, p.Canonical ∧ q.Canonical ∧ p ≠ q ∧
      mirror start base p = mirror start base q := by
  obtain ⟨names, hnormal, hnames⟩ := normal_of_isAbsolute hbase
  obtain ⟨others, hothers, hstartNames⟩ := normal_of_isAbsolute hstart
  unfold EndsIn at h
  rw [hnormal, hothers] at h
  obtain ⟨front, c, back, rfl, hm⟩ := exists_of_not_isSuffix h
  have hfront : ∀ d ∈ front, d.IsName := fun d hd => (hnames d (List.mem_append_left _ hd)).1
  have hchild : ∀ d ∈ front ++ [c], d.IsName :=
    List.forall_mem_append.2 ⟨hfront, List.forall_mem_singleton.2 (hnames c (by simp)).1⟩
  have hcanonical := canonical_ofComponents hchild
  rcases hm with rfl | ⟨other, d, hne, rfl⟩
  · refine ⟨_, _, hcanonical, canonical_ofComponents hfront, ?_,
      mirror_through_eq_above hstart hnormal hchild hothers⟩
    intro hsame
    simpa using ofComponents_root_injective hchild hfront hsame
  · have hd : d.IsName := (hstartNames d (by simp)).1
    have hsibling : ∀ e ∈ front ++ [d], e.IsName :=
      List.forall_mem_append.2 ⟨hfront, List.forall_mem_singleton.2 hd⟩
    refine ⟨_, _, hcanonical, canonical_ofComponents hsibling, ?_,
      mirror_through_eq_beside hstart hnormal hchild hothers hd hne⟩
    intro hsame
    have hlast := List.append_cancel_left (ofComponents_root_injective hchild hsibling hsame)
    exact hne (List.cons.inj hlast).1.symm

end Path

end SolutionPlan
