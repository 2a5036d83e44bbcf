import Mathlib.Data.List.Infix
import Mos6502.FileTree

/-! File trees while a tool works in them. A directory stays a directory, so a path that has been
resolved keeps its meaning; making directories changes nothing that was there, and writing a file
changes only the place its path leads to. -/
namespace Mos6502

namespace Path

theorem names_ne_nil (text : List Char) : names text ≠ [] := by
  cases text with
  | nil => simp [names]
  | cons c rest =>
    simp only [names]
    split
    · simp
    · split <;> simp

theorem names_append_slash (front back : List Char) :
    names (front ++ '/' :: back) = names front ++ names back := by
  induction front with
  | nil => simp [names]
  | cons c front ih =>
    by_cases slash : c = '/'
    · simp [names, slash, ih]
    · cases first : names front with
      | nil => exact absurd first (names_ne_nil front)
      | cons name more => simp [names, slash, ih, first]

theorem names_of_no_slash {text : List Char} (free : '/' ∉ text) :
    names text = [String.ofList text] := by
  induction text with
  | nil => rfl
  | cons c rest ih =>
    obtain ⟨other, behind⟩ := not_or.mp (mt List.mem_cons.mpr free)
    have slash : c ≠ '/' := fun same => other same.symm
    simp only [names, if_neg slash, ih behind]
    congr 1
    apply String.toList_inj.mp
    simp [Char.toString]

/- A name that leads out of a directory to something in it. -/
def IsProper (name : String) : Prop :=
  name ≠ "" ∧ name ≠ "." ∧ name ≠ ".." ∧ '/' ∉ name.toList

instance (name : String) : Decidable (IsProper name) :=
  inferInstanceAs (Decidable (name ≠ "" ∧ name ≠ "." ∧ name ≠ ".." ∧ '/' ∉ name.toList))

theorem IsProper.names {name : String} (proper : IsProper name) :
    Path.names name.toList = [name] := by
  rw [names_of_no_slash proper.2.2.2, String.ofList_toList]

theorem join_ne_empty (base : String) {name : String} (proper : IsProper name) :
    join base name ≠ "" := by
  unfold join
  split <;> simp [proper.1]

/- Only a name that is blank anyway gives way to the new one. -/
theorem names_join (base : String) {name : String} (proper : IsProper name) :
    names (join base name).toList = names base.toList ++ [name] ∨
      ∃ front, names base.toList = front ++ [""] ∧
        names (join base name).toList = front ++ [name] := by
  unfold join
  split
  · rename_i closed
    right
    rcases closed with rfl | slash
    · refine ⟨[], rfl, ?_⟩
      simpa using proper.names
    · obtain ⟨front, ends⟩ := List.getLast?_eq_some_iff.mp slash
      refine ⟨names front, ?_, ?_⟩
      · rw [ends, names_append_slash]
        rfl
      · rw [String.toList_append, ends, List.append_assoc, List.singleton_append,
          names_append_slash, proper.names]
  · left
    have whole : (base ++ "/" ++ name).toList = base.toList ++ '/' :: name.toList := by simp
    rw [whole, names_append_slash, proper.names]

theorem properNames_join (base : String) {name : String} (proper : IsProper name) :
    properNames (join base name) = properNames base ++ [name] := by
  have kept : decide (name ≠ "" ∧ name ≠ ".") = true := by simp [proper.1, proper.2.1]
  unfold properNames
  rcases names_join base proper with same | ⟨front, blank, same⟩
  · rw [same, List.filter_append, List.filter_singleton, kept]
    rfl
  · rw [same, blank, List.filter_append, List.filter_append, List.filter_singleton, kept]
    simp

theorem start_join (base : String) {name : String} (proper : IsProper name) :
    Location.start (join base name) = Location.start base := by
  have relative : name.toList.head? ≠ some '/' := by
    intro slash
    exact proper.2.2.2 (List.mem_of_head? slash)
  by_cases empty : base = ""
  · simp [join, Location.start, empty, relative]
  · have first : ∀ text : String, (base ++ text).toList.head? = base.toList.head? := by
      intro text
      rw [String.toList_append]
      exact List.head?_append_of_ne_nil _ (by simpa using empty)
    unfold join Location.start
    split
    · rw [first]
    · rw [String.append_assoc, first]

end Path

namespace FileTree

/- Where a path leads, the empty one included. -/
def reach (tree : FileTree) (path : String) : Except FileError Location :=
  (Path.names path.toList).foldlM tree.follow (Location.start path)

theorem resolve_of_ne_empty (tree : FileTree) {path : String} (nonempty : path ≠ "") :
    tree.resolve path = tree.reach path :=
  if_neg nonempty

theorem follow_eq_ok {tree : FileTree} {here there : Location} {name : String}
    (followed : tree.follow here name = .ok there) :
    tree.lookup here = some .directory ∧
      there = if name = "" ∨ name = "." then here
        else if name = ".." then here.parent
        else here.child name := by
  unfold follow at followed
  split at followed
  · cases followed
  · cases followed
  · rename_i directory
    exact ⟨directory, (Except.ok.inj followed).symm⟩

theorem follow_proper {tree : FileTree} {here there : Location} {name : String}
    (proper : Path.IsProper name) (followed : tree.follow here name = .ok there) :
    tree.lookup here = some .directory ∧ there = here.child name := by
  obtain ⟨directory, rfl⟩ := follow_eq_ok followed
  obtain ⟨empty, here_itself, above, -⟩ := proper
  exact ⟨directory, by simp [empty, here_itself, above]⟩

theorem follow_of_proper {tree : FileTree} {here : Location} {name : String}
    (proper : Path.IsProper name) (directory : tree.lookup here = some .directory) :
    tree.follow here name = .ok (here.child name) := by
  obtain ⟨empty, here_itself, above, -⟩ := proper
  simp [follow, directory, empty, here_itself, above]

/- A blank name, as between two slashes, leads nowhere else. -/
theorem follow_blank (tree : FileTree) (here : Location) (name : String) :
    (tree.follow here "" >>= fun there => tree.follow there name) = tree.follow here name := by
  unfold follow
  cases at_here : tree.lookup here with
  | none => rfl
  | some entry =>
    cases entry with
    | file contents => rfl
    | directory => simp [bind, Except.bind, at_here]

theorem follow_single (tree : FileTree) (here : Location) (name : String) :
    [name].foldlM tree.follow here = tree.follow here name := by
  simp

theorem reach_join (tree : FileTree) (base : String) {name : String}
    (proper : Path.IsProper name) :
    tree.reach (Path.join base name) =
      tree.reach base >>= fun here => tree.follow here name := by
  unfold reach
  rw [Path.start_join base proper]
  rcases Path.names_join base proper with same | ⟨front, blank, same⟩
  · rw [same, List.foldlM_append]
    simp only [follow_single]
  · rw [same, blank, List.foldlM_append, List.foldlM_append, bind_assoc]
    congr 1
    funext here
    simp only [follow_single]
    exact (tree.follow_blank here name).symm

theorem reach_join_eq_ok {tree : FileTree} {base name : String} {location : Location}
    (proper : Path.IsProper name) (reached : tree.reach (Path.join base name) = .ok location) :
    ∃ here, tree.reach base = .ok here ∧ tree.lookup here = some .directory ∧
      location = here.child name := by
  rw [tree.reach_join base proper] at reached
  cases out : tree.reach base with
  | error e =>
    rw [out] at reached
    cases reached
  | ok here =>
    rw [out] at reached
    obtain ⟨directory, same⟩ := follow_proper proper reached
    exact ⟨here, rfl, directory, same⟩

theorem resolve_join_join {tree : FileTree} {base outer name : String} {location : Location}
    (proper_outer : Path.IsProper outer) (proper : Path.IsProper name)
    (resolved : tree.resolve (Path.join (Path.join base outer) name) = .ok location) :
    ∃ here, tree.reach base = .ok here ∧ tree.lookup here = some .directory ∧
      location = (here.child outer).child name := by
  rw [resolve_of_ne_empty _ (Path.join_ne_empty _ proper)] at resolved
  obtain ⟨inside, reached, -, rfl⟩ := reach_join_eq_ok proper resolved
  obtain ⟨here, out, directory, rfl⟩ := reach_join_eq_ok proper_outer reached
  exact ⟨here, out, directory, rfl⟩

/- Paths that end in different names never lead to the same place. -/
theorem resolve_join_ne {tree : FileTree} {base base' name name' : String} {location : Location}
    (proper : Path.IsProper name) (proper' : Path.IsProper name') (differ : name ≠ name')
    (resolved : tree.resolve (Path.join base name) = .ok location) :
    tree.resolve (Path.join base' name') ≠ .ok location := by
  intro resolved'
  rw [resolve_of_ne_empty _ (Path.join_ne_empty _ proper)] at resolved
  rw [resolve_of_ne_empty _ (Path.join_ne_empty _ proper')] at resolved'
  obtain ⟨here, -, -, rfl⟩ := reach_join_eq_ok proper resolved
  obtain ⟨here', -, -, same⟩ := reach_join_eq_ok proper' resolved'
  exact differ (List.cons.inj (Location.mk.inj same).2).1

theorem lookup_insert_self (tree : FileTree) {location : Location} (entry : Entry)
    (inside : location.inner ≠ []) : (tree.insert location entry).lookup location = some entry := by
  obtain ⟨anchor, _ | ⟨name, inner⟩⟩ := location
  · exact absurd rfl inside
  · simp [lookup, insert]

theorem lookup_insert_of_ne (tree : FileTree) {location other : Location} (entry : Entry)
    (differ : other ≠ location) :
    (tree.insert location entry).lookup other = tree.lookup other := by
  have kept (entries : List (Location × Entry)) :
      (entries.filter (·.1 ≠ location)).lookup other = entries.lookup other := by
    induction entries with
    | nil => rfl
    | cons head rest ih =>
      obtain ⟨place, here⟩ := head
      by_cases same : place = location
      · rw [List.filter_cons_of_neg (by simpa using same), ih, List.lookup_cons, same,
          beq_false_of_ne differ]
      · rw [List.filter_cons_of_pos (by simpa using same), List.lookup_cons, List.lookup_cons, ih]
  obtain ⟨anchor, _ | ⟨name, inner⟩⟩ := other
  · rfl
  · simp only [lookup, insert, List.lookup_cons, beq_false_of_ne differ, kept]

theorem inner_ne_nil (tree : FileTree) {location : Location}
    (absent : tree.lookup location ≠ some .directory) : location.inner ≠ [] := by
  obtain ⟨anchor, _ | ⟨name, inner⟩⟩ := location
  · exact absurd rfl absent
  · simp

/- The second tree has every directory of the first. -/
def Keeps (tree tree' : FileTree) : Prop :=
  ∀ location, tree.lookup location = some .directory → tree'.lookup location = some .directory

theorem Keeps.refl (tree : FileTree) : tree.Keeps tree :=
  fun _ directory => directory

theorem Keeps.trans {a b c : FileTree} (first : a.Keeps b) (second : b.Keeps c) : a.Keeps c :=
  fun location directory => second location (first location directory)

theorem keeps_insert {tree : FileTree} {location : Location} (entry : Entry)
    (absent : tree.lookup location ≠ some .directory) : tree.Keeps (tree.insert location entry) := by
  intro other directory
  have differ : other ≠ location := by
    rintro rfl
    exact absent directory
  rw [lookup_insert_of_ne tree entry differ, directory]

theorem Keeps.follow {tree tree' : FileTree} (keeps : tree.Keeps tree') {here there : Location}
    {name : String} (followed : tree.follow here name = .ok there) :
    tree'.follow here name = .ok there := by
  obtain ⟨directory, rfl⟩ := follow_eq_ok followed
  simp [FileTree.follow, keeps here directory]

theorem Keeps.follow_all {tree tree' : FileTree} (keeps : tree.Keeps tree') {names : List String}
    {here there : Location} (followed : names.foldlM tree.follow here = .ok there) :
    names.foldlM tree'.follow here = .ok there := by
  induction names generalizing here with
  | nil => exact followed
  | cons name names ih =>
    rw [List.foldlM_cons] at followed ⊢
    cases step : tree.follow here name with
    | error e =>
      rw [step] at followed
      cases followed
    | ok next =>
      rw [step] at followed
      rw [keeps.follow step]
      exact ih followed

theorem Keeps.resolve {tree tree' : FileTree} (keeps : tree.Keeps tree') {path : String}
    {location : Location} (resolved : tree.resolve path = .ok location) :
    tree'.resolve path = .ok location := by
  unfold FileTree.resolve at resolved ⊢
  split at resolved
  · cases resolved
  · rename_i nonempty
    rw [if_neg nonempty]
    exact keeps.follow_all resolved

/- Nothing that was there has changed, and what is new are directories at certain places. -/
def Paves (allowed : Location → Prop) (tree tree' : FileTree) : Prop :=
  ∀ location, tree'.lookup location = tree.lookup location ∨
    tree.lookup location = none ∧ tree'.lookup location = some .directory ∧ allowed location

namespace Paves

variable {allowed : Location → Prop} {a b c : FileTree}

theorem refl (tree : FileTree) : tree.Paves allowed tree :=
  fun _ => .inl rfl

theorem keeps (paved : a.Paves allowed b) : a.Keeps b := by
  intro location directory
  rcases paved location with same | ⟨-, made, -⟩
  · rw [same, directory]
  · exact made

theorem mono {wider : Location → Prop} (wide : ∀ location, allowed location → wider location)
    (paved : a.Paves allowed b) : a.Paves wider b := by
  intro location
  rcases paved location with same | ⟨absent, made, here⟩
  · exact .inl same
  · exact .inr ⟨absent, made, wide location here⟩

theorem trans (first : a.Paves allowed b) (second : b.Paves allowed c) : a.Paves allowed c := by
  intro location
  rcases second location with same | ⟨absent, made, here⟩
  · rw [same]
    exact first location
  · rcases first location with before | ⟨-, made_before, -⟩
    · exact .inr ⟨before ▸ absent, made, here⟩
    · rw [made_before] at absent
      cases absent

theorem insert {tree : FileTree} {location : Location} (absent : tree.lookup location = none)
    (here : allowed location) : tree.Paves allowed (tree.insert location .directory) := by
  intro other
  by_cases same : other = location
  · subst same
    have inside : other.inner ≠ [] := inner_ne_nil tree (by simp [absent])
    exact .inr ⟨absent, lookup_insert_self tree _ inside, here⟩
  · exact .inl (lookup_insert_of_ne tree _ same)

end Paves

/- Some first names of these lead there. -/
def Leads (tree : FileTree) (start : Location) (names : List String) (location : Location) :
    Prop :=
  ∃ front, front <+: names ∧ front.foldlM tree.follow start = .ok location

theorem Leads.mono {tree tree' : FileTree} {start location : Location} {names names' : List String}
    (keeps : tree.Keeps tree') (more : names <+: names') (leads : tree.Leads start names location) :
    tree'.Leads start names' location := by
  obtain ⟨front, part, followed⟩ := leads
  exact ⟨front, part.trans more, keeps.follow_all followed⟩

theorem ensureDirectory_paves {tree tree' : FileTree} {start : Location} {names : List String}
    (ensured : tree.ensureDirectory start names = .ok tree') :
    tree.Paves (tree'.Leads start names) tree' := by
  unfold ensureDirectory at ensured
  cases followed : names.foldlM tree.follow start with
  | error e =>
    rw [followed] at ensured
    cases ensured
  | ok location =>
    simp only [followed, bind, Except.bind] at ensured
    split at ensured
    · rename_i absent
      obtain rfl := Except.ok.inj ensured
      have keeps : tree.Keeps (tree.insert location .directory) :=
        keeps_insert .directory (by simp [absent])
      exact .insert absent ⟨names, List.prefix_rfl, keeps.follow_all followed⟩
    · obtain rfl := Except.ok.inj ensured
      exact .refl tree
    · cases ensured

/- Also when it fails half way. -/
theorem ensureDirectories_paves (tree : FileTree) (start : Location) (names : List String) :
    tree.Paves ((tree.ensureDirectories start names).1.Leads start names.reverse)
      (tree.ensureDirectories start names).1 := by
  induction names with
  | nil => exact .refl tree
  | cons name outer ih =>
    have part : outer.reverse <+: (name :: outer).reverse := by simp
    unfold ensureDirectories
    split
    · rename_i ensured
      exact ensureDirectory_paves ensured
    · split
      · rename_i middle e made
        rw [made] at ih
        exact ih.mono fun _ => Leads.mono (.refl middle) part
      · rename_i middle made
        rw [made] at ih
        split
        · rename_i ensured
          have last := ensureDirectory_paves ensured
          exact (ih.mono fun _ => Leads.mono last.keeps part).trans last
        · exact ih.mono fun _ => Leads.mono (.refl middle) part
    · exact .refl tree

/- A place on the way to the end of a path. -/
def OnWay (tree : FileTree) (path : String) (location : Location) : Prop :=
  tree.Leads (Location.start path) (Path.properNames path) location

theorem createDirectories_paves (tree : FileTree) (path : String) :
    tree.Paves ((tree.createDirectories path).1.OnWay path) (tree.createDirectories path).1 := by
  have paved := tree.ensureDirectories_paves (Location.start path) (Path.properNames path).reverse
  rwa [List.reverse_reverse] at paved

theorem follow_properNames {tree : FileTree} {names : List String} {here there : Location}
    (followed : names.foldlM tree.follow here = .ok there) :
    (names.filter fun name => name ≠ "" ∧ name ≠ ".").foldlM tree.follow here = .ok there := by
  induction names generalizing here with
  | nil => exact followed
  | cons name names ih =>
    rw [List.foldlM_cons] at followed
    cases step : tree.follow here name with
    | error e =>
      rw [step] at followed
      cases followed
    | ok next =>
      rw [step] at followed
      by_cases blank : name = "" ∨ name = "."
      · obtain ⟨-, rfl⟩ := follow_eq_ok step
        rw [List.filter_cons_of_neg (by simpa [or_iff_not_imp_left] using blank)]
        rw [if_pos blank] at followed
        exact ih followed
      · rw [List.filter_cons_of_pos (by simpa [not_or] using blank), List.foldlM_cons, step]
        exact ih followed

theorem onWay_join {tree : FileTree} {base name : String} {here location : Location}
    (proper : Path.IsProper name) (reached : tree.reach base = .ok here)
    (way : tree.OnWay (Path.join base name) location) :
    tree.OnWay base location ∨ location = here.child name := by
  obtain ⟨front, part, followed⟩ := way
  rw [Path.properNames_join base proper] at part
  rw [Path.start_join base proper] at followed
  rcases List.prefix_concat_iff.mp part with rfl | part
  · right
    rw [List.foldlM_append, Path.properNames, follow_properNames reached] at followed
    exact (follow_proper proper ((tree.follow_single here name).symm.trans followed)).2
  · exact .inl ⟨front, part, followed⟩

theorem write_eq_ok {tree tree' : FileTree} {path : String} {contents : List UInt8}
    (written : tree.write path contents = .ok tree') :
    ∃ location, tree.resolve path = .ok location ∧ tree.lookup location ≠ some .directory ∧
      tree' = tree.insert location (.file contents) := by
  unfold write at written
  cases resolved : tree.resolve path with
  | error e =>
    rw [resolved] at written
    cases written
  | ok location =>
    simp only [resolved, bind, Except.bind] at written
    split at written
    · cases written
    · rename_i absent
      exact ⟨location, rfl, absent, (Except.ok.inj written).symm⟩

theorem write_of_resolve {tree : FileTree} {path : String} {location : Location}
    (resolved : tree.resolve path = .ok location) (absent : tree.lookup location ≠ some .directory)
    (contents : List UInt8) : tree.write path contents = .ok (tree.insert location (.file contents)) := by
  simp only [write, resolved, bind, Except.bind]

theorem resolve_of_read {tree : FileTree} {path : String} {contents : List UInt8}
    (held : tree.read path = .ok contents) : ∃ location, tree.resolve path = .ok location := by
  cases resolved : tree.resolve path with
  | error e =>
    rw [read, resolved] at held
    cases held
  | ok location => exact ⟨location, rfl⟩

theorem read_of_lookup {tree : FileTree} {path : String} {location : Location}
    {contents : List UInt8} (resolved : tree.resolve path = .ok location)
    (found : tree.lookup location = some (.file contents)) : tree.read path = .ok contents := by
  simp [read, resolved, bind, Except.bind, found]

end FileTree

end Mos6502
