import Mathlib.Data.List.Induction
import Stylesheet.Proofs.Selector.Matching

/-! When one chain implies another. A chain occurs in another if its compounds can be placed on
those of the other in order, so that the combinators in between agree. This is the same as being
matched wherever the other is: a tree made of paths has one element for each compound of a chain,
and nothing in it is related but by what the chain says. -/

namespace Stylesheet

/-- A compound and the combinator behind it; without one, what follows descends from it. -/
structure Link where
  compound : Compound
  joint : Option Combinator

namespace Chain

def links : Chain → List Link
  | [] => []
  | .compound c :: .combinator k :: rest => ⟨c, some k⟩ :: links rest
  | .compound c :: rest => ⟨c, none⟩ :: links rest
  | .combinator _ :: rest => links rest

/-- Compounds that ask for something, and no more than one combinator behind each. -/
def isProper : Chain → Bool
  | [] => true
  | .compound c :: .combinator _ :: rest => !c.members.isEmpty && isProper rest
  | .compound c :: rest => !c.members.isEmpty && isProper rest
  | .combinator _ :: _ => false

theorem startsFree_of_isProper {chain : Chain} (proper : chain.isProper = true) :
    ElementTree.startsFree chain = true := by
  cases chain with
  | nil => rfl
  | cons first rest =>
    cases first with
    | compound c => rfl
    | combinator k => simp [isProper] at proper

theorem isProper_append {chain other : Chain} (proper : chain.isProper = true)
    (proper' : other.isProper = true) : (chain ++ other).isProper = true := by
  fun_induction isProper chain with
  | case1 => exact proper'
  | case2 c k rest ih =>
    simp only [Bool.and_eq_true, List.cons_append, isProper] at proper ⊢
    exact ⟨proper.1, ih proper.2⟩
  | case3 c rest bound ih =>
    simp only [Bool.and_eq_true, List.cons_append] at proper ⊢
    rw [isProper.eq_3, Bool.and_eq_true]
    · exact ⟨proper.1, ih proper.2⟩
    · intro k more same
      have free := startsFree_of_isProper (ih proper.2)
      rw [same] at free
      simp [ElementTree.startsFree] at free
  | case4 => simp at proper

end Chain

namespace ElementTree

variable (tree : ElementTree)

/-- How two elements stand to each other that two neighbouring compounds are met by. -/
def Joined : Option Combinator → tree.Element → tree.Element → Prop
  | none => tree.Ancestor
  | some k => tree.Related k

/-- The elements that go on from one link. -/
def After (start : tree.Element → Prop) (l : Link) (e : tree.Element) : Prop :=
  ∃ a, tree.Joined l.joint a e ∧ tree.Meets l.compound a ∧ start a

def AfterAll (start : tree.Element → Prop) (links : List Link) : tree.Element → Prop :=
  links.foldl tree.After start

theorem behind_eq_afterAll (start : tree.Element → Prop) {chain : Chain}
    (proper : chain.isProper = true) : tree.Behind start chain = tree.AfterAll start chain.links := by
  fun_induction tree.Behind start chain with
  | case1 start => rfl
  | case2 start c k rest ih =>
    rw [Chain.links]
    simp only [Chain.isProper, Bool.and_eq_true] at proper
    exact ih proper.2
  | case3 start c rest other ih =>
    rw [Chain.links.eq_3 _ _ other]
    rw [Chain.isProper.eq_3 _ _ other, Bool.and_eq_true] at proper
    exact ih proper.2
  | case4 => simp [Chain.isProper] at proper

end ElementTree

/-- How far behind its place the next compound may stand. -/
inductive Slack where
  | anywhere
  | amongSiblings
  | here

/-- Whether a compound with this joint may be passed over. -/
def Slack.admits : Slack → Option Combinator → Bool
  | anywhere, _ => true
  | amongSiblings, some k => k != .child
  | _, _ => false

/-- What is left open by a joint once a step with another joint has begun it, if it can. -/
def slackBehind : Option Combinator → Option Combinator → Option Slack
  | none, none => some .anywhere
  | none, some .child => some .anywhere
  | some .child, some .child => some .amongSiblings
  | some .nextSibling, some .nextSibling => some .here
  | some .followingSibling, some .nextSibling => some .amongSiblings
  | some .followingSibling, some .followingSibling => some .amongSiblings
  | _, _ => none

/-- Whether an element that meets the second compound must meet the first. -/
def Compound.isImpliedBy (c d : Compound) : Bool :=
  c.members.all fun s => d.members.any (· == s)

/-- Whether links can be placed on others in order, the next one within the slack. -/
def occurs : Slack → List Link → List Link → Bool
  | _, [], [] => true
  | _, _ :: _, [] => false
  | slack, [], l :: rest => slack.admits l.joint && occurs slack [] rest
  | slack, d :: more, l :: rest =>
    (slack.admits l.joint && occurs slack (d :: more) rest) ||
      (d.compound.isImpliedBy l.compound &&
        match slackBehind d.joint l.joint with
        | some next => occurs next more rest
        | none => false)

/-- Whether a chain occurs in another. -/
def Chain.occursIn (chain other : Chain) : Bool :=
  occurs .anywhere chain.links other.links

section Sound

variable {tree : ElementTree}

theorem ElementTree.meets_of_isImpliedBy {c d : Compound} {e : tree.Element}
    (implied : c.isImpliedBy d = true) (meets : tree.Meets d e) : tree.Meets c e := by
  intro s member
  obtain ⟨t, found, same⟩ := List.any_eq_true.mp (List.all_eq_true.mp implied s member)
  exact tree.holds_of_beq same (meets t found)

/-- What passes over the joints that the slack admits. -/
def ElementTree.PassesOver (tree : ElementTree) (slack : Slack) (p : tree.Element → Prop) : Prop :=
  ∀ joint, slack.admits joint = true → ∀ a e, tree.Joined joint a e → p a → p e

theorem passesOver_anywhere {p : tree.Element → Prop} (inherited : tree.Inherited p) :
    tree.PassesOver .anywhere p := by
  intro joint _ a e joined holds
  cases joint with
  | none => exact inherited.ancestor joined holds
  | some k => exact inherited.related joined holds

private theorem parent_eq_of_sibling {joint : Option Combinator} {a e : tree.Element}
    (sibling : Slack.amongSiblings.admits joint = true) (joined : tree.Joined joint a e) :
    tree.parent a = tree.parent e := by
  rcases joint with _ | _ | _ | _
  · simp [Slack.admits] at sibling
  · simp [Slack.admits] at sibling
  · exact tree.previous_parent joined
  · exact ElementTree.Precedes.parent_eq joined

private theorem precedes_of_sibling {joint : Option Combinator} {a b e : tree.Element}
    (sibling : Slack.amongSiblings.admits joint = true) (joined : tree.Joined joint b e)
    (precedes : tree.Precedes a b) : tree.Precedes a e := by
  rcases joint with _ | _ | _ | _
  · simp [Slack.admits] at sibling
  · simp [Slack.admits] at sibling
  · exact .further joined precedes
  · exact ElementTree.Precedes.trans precedes joined

/-- A step taken along a joint is the step that is asked for, and goes on as far as the slack says. -/
theorem step_of_slackBehind {wanted joint : Option Combinator} {slack : Slack}
    (begins : slackBehind wanted joint = some slack) (p : tree.Element → Prop) :
    (∀ a e, tree.Joined joint a e → tree.Joined wanted a e) ∧
      tree.PassesOver slack fun e => ∃ a, tree.Joined wanted a e ∧ p a := by
  fun_cases slackBehind wanted joint <;> simp only [slackBehind] at begins <;> cases begins
  · exact ⟨fun _ _ joined => joined, passesOver_anywhere (tree.inherited_exists_ancestor p)⟩
  · exact ⟨fun _ _ joined => .parent joined, passesOver_anywhere (tree.inherited_exists_ancestor p)⟩
  · refine ⟨fun _ _ joined => joined, fun joint sibling b e joined ⟨a, above, holds⟩ => ⟨a, ?_, holds⟩⟩
    exact (parent_eq_of_sibling sibling joined).symm.trans above
  · exact ⟨fun _ _ joined => joined, fun _ admits => by simp [Slack.admits] at admits⟩
  · refine ⟨fun _ _ joined => .previous joined,
      fun joint sibling b e joined ⟨a, precedes, holds⟩ => ⟨a, ?_, holds⟩⟩
    exact precedes_of_sibling sibling joined precedes
  · refine ⟨fun _ _ joined => joined,
      fun joint sibling b e joined ⟨a, precedes, holds⟩ => ⟨a, ?_, holds⟩⟩
    exact precedes_of_sibling sibling joined precedes

theorem afterAll_of_occurs {slack : Slack} {wanted links : List Link}
    (occur : occurs slack wanted links = true) {p q : tree.Element → Prop}
    (weaker : ∀ e, p e → q e) (passes : tree.PassesOver slack q) (e : tree.Element)
    (found : tree.AfterAll p links e) : tree.AfterAll q wanted e := by
  fun_induction occurs slack wanted links generalizing p q with
  | case1 => exact weaker e found
  | case2 => simp at occur
  | case3 slack l rest ih =>
    simp only [Bool.and_eq_true] at occur
    apply ih occur.2 _ passes found
    exact fun x ⟨a, joined, _, holds⟩ => passes _ occur.1 a x joined (weaker a holds)
  | case4 slack d more l rest skip take =>
    simp only [Bool.or_eq_true, Bool.and_eq_true] at occur
    rcases occur with ⟨admits, later⟩ | ⟨implied, later⟩
    · apply skip later _ passes found
      exact fun x ⟨a, joined, _, holds⟩ => passes _ admits a x joined (weaker a holds)
    · cases begins : slackBehind d.joint l.joint with
      | none => simp [begins] at later
      | some next =>
        rw [begins] at later
        obtain ⟨same, goesOn⟩ := step_of_slackBehind begins
          fun a => tree.Meets d.compound a ∧ q a
        apply take next later _ goesOn found
        exact fun x ⟨a, joined, meets, holds⟩ =>
          ⟨a, same a x joined, tree.meets_of_isImpliedBy implied meets, weaker a holds⟩

/-- A chain is met wherever one that it occurs in is, from all that the first may start at on. -/
theorem ElementTree.behind_of_occursIn {chain other : Chain} (proper : chain.isProper = true)
    (proper' : other.isProper = true) (occur : chain.occursIn other = true)
    {p q : tree.Element → Prop} (weaker : ∀ e, p e → q e) (inherited : tree.Inherited q)
    (e : tree.Element) (behind : tree.Behind p other e) : tree.Behind q chain e := by
  rw [tree.behind_eq_afterAll _ proper'] at behind
  rw [tree.behind_eq_afterAll _ proper]
  exact afterAll_of_occurs occur weaker (passesOver_anywhere inherited) e behind

end Sound

section Paths

/-- An element of a path: the compound it meets, if any, and whether it is a child of what comes
before it or the next sibling. -/
structure Step where
  label : Option Compound
  isChild : Bool

def Path.label? (path : List Step) : Option Compound :=
  path.head?.bind Step.label

def Path.parent : List Step → Option (List Step)
  | [] => none
  | step :: before => if step.isChild then some before else parent before

def Path.previous : List Step → Option (List Step)
  | [] => none
  | step :: before => if step.isChild then none else some before

/-- The tree of all paths, the last step of each first. An element meets what is implied by its
own compound. -/
def pathTree : ElementTree where
  Element := List Step
  parent := Path.parent
  previous := Path.previous
  previous_parent := by
    intro e f previous
    cases e with
    | nil => simp [Path.previous] at previous
    | cons step before =>
      by_cases child : step.isChild = true
      · simp [Path.previous, child] at previous
      · simp only [Path.previous, child] at previous
        cases previous
        simp [Path.parent, child]
  holds path s := ∃ c, Path.label? path = some c ∧ ∃ t ∈ c.members, (t == s) = true
  holds_of_beq := by
    rintro a b e same ⟨c, label, t, member, equal⟩
    exact ⟨c, label, t, member, BEq.trans equal same⟩

/-- A path goes on along a joint; where others may stand in between, an element without a compound
does. -/
def Path.goOn (path : List Step) (label : Option Compound) : Option Combinator → List Step
  | none => ⟨label, true⟩ :: ⟨none, true⟩ :: path
  | some .child => ⟨label, true⟩ :: path
  | some .nextSibling => ⟨label, false⟩ :: path
  | some .followingSibling => ⟨label, false⟩ :: ⟨none, false⟩ :: path

/-- The path along the links to an element. -/
def Path.along (links : List Link) (label : Option Compound) : List Step :=
  links.foldl
    (fun path l label => Path.goOn (path (some l.compound)) label l.joint) (fun label => [⟨label, true⟩])
    label

namespace Path

theorem along_concat (links : List Link) (l : Link) (label : Option Compound) :
    along (links ++ [l]) label = goOn (along links (some l.compound)) label l.joint := by
  simp [along, List.foldl_append]

theorem label?_along (links : List Link) (label : Option Compound) :
    label? (along links label) = label := by
  rcases List.eq_nil_or_concat' links with rfl | ⟨before, l, rfl⟩
  · rfl
  · rw [along_concat]
    rcases l.joint with _ | _ | _ | _ <;> rfl

theorem meets_along (links : List Link) (c : Compound) :
    pathTree.Meets c (along links (some c)) :=
  fun s member => ⟨c, label?_along links (some c), s, member, BEq.rfl⟩

theorem joined_goOn (path : List Step) (label : Option Compound) (joint : Option Combinator) :
    pathTree.Joined joint path (goOn path label joint) := by
  rcases joint with _ | _ | _ | _
  · exact .further rfl (.parent rfl)
  · rfl
  · rfl
  · exact .further rfl (.previous rfl)

/-- The path along links stands behind them. -/
theorem afterAll_along (links : List Link) (label : Option Compound) :
    pathTree.AfterAll (fun _ => True) links (along links label) := by
  induction links using List.reverseRecOn generalizing label with
  | nil => trivial
  | append_singleton links l ih =>
    rw [along_concat, ElementTree.AfterAll, List.foldl_append]
    exact ⟨_, joined_goOn _ label l.joint, meets_along links l.compound, ih _⟩

/-- Where a step of this joint may come from: the place of one of the links, from which the others
lead here within what the joint leaves open. -/
def ComesFrom (links : List Link) (joint : Option Combinator) (path : List Step) : Prop :=
  ∃ before l after slack, links = before ++ l :: after ∧ path = along before (some l.compound) ∧
    slackBehind joint l.joint = some slack ∧ ∀ x ∈ after, slack.admits x.joint = true

private theorem comesFrom_last {links : List Link} {l : Link} {joint : Option Combinator}
    {slack : Slack} (begins : slackBehind joint l.joint = some slack) :
    ComesFrom (links ++ [l]) joint (along links (some l.compound)) :=
  ⟨links, l, [], slack, rfl, rfl, begins, by simp⟩

/-- A step that has begun passes over a further link that every slack it leaves open admits. -/
private theorem ComesFrom.concat {links : List Link} {l : Link} {joint : Option Combinator}
    {path : List Step} (comes : ComesFrom links joint path)
    (admits : ∀ k slack, slackBehind joint k = some slack → slack.admits l.joint = true) :
    ComesFrom (links ++ [l]) joint path := by
  obtain ⟨before, first, after, slack, rfl, same, begins, between⟩ := comes
  refine ⟨before, first, after ++ [l], slack, by simp, same, begins, ?_⟩
  intro x member
  rcases List.mem_append.mp member with early | last
  · exact between x early
  · rw [List.mem_singleton.mp last]
    exact admits _ _ begins

variable {links : List Link} {label : Option Compound} {path : List Step}

private theorem comesFrom_parent (labelled : label? path ≠ none)
    (above : parent (along links label) = some path) : ComesFrom links (some .child) path := by
  induction links using List.reverseRecOn generalizing label with
  | nil =>
    cases above
    exact absurd rfl labelled
  | append_singleton links l ih =>
    rw [along_concat] at above
    have passes : ∀ k slack, slackBehind (some .child) k = some slack → slack = .amongSiblings := by
      intro k slack begins
      rcases k with _ | _ | _ | _ <;> cases begins
      rfl
    cases joint : l.joint with
    | none =>
      rw [joint] at above
      cases above
      exact absurd rfl labelled
    | some k =>
      rw [joint] at above
      cases k with
      | child =>
        cases above
        exact comesFrom_last (by rw [joint]; rfl)
      | nextSibling =>
        refine (ih above).concat fun k slack begins => ?_
        rw [passes k slack begins, joint]
        rfl
      | followingSibling =>
        refine (ih above).concat fun k slack begins => ?_
        rw [passes k slack begins, joint]
        rfl

private theorem comesFrom_previous (labelled : label? path ≠ none)
    (before : previous (along links label) = some path) :
    ComesFrom links (some .nextSibling) path := by
  rcases List.eq_nil_or_concat' links with rfl | ⟨links, l, rfl⟩
  · cases before
  · rw [along_concat] at before
    cases joint : l.joint with
    | none => simp [joint, goOn, previous] at before
    | some k =>
      rw [joint] at before
      cases k with
      | child => cases before
      | nextSibling =>
        cases before
        exact comesFrom_last (by rw [joint]; rfl)
      | followingSibling =>
        cases before
        exact absurd rfl labelled

private theorem comesFrom_precedes (labelled : label? path ≠ none)
    (precedes : pathTree.Precedes path (along links label)) :
    ComesFrom links (some .followingSibling) path := by
  induction links using List.reverseRecOn generalizing label with
  | nil =>
    obtain ⟨_, before, _⟩ := precedes.exists_previous
    cases before
  | append_singleton links l ih =>
    have passes : ∀ k slack, slackBehind (some .followingSibling) k = some slack →
        slack = .amongSiblings := by
      intro k slack begins
      rcases k with _ | _ | _ | _ <;> cases begins <;> rfl
    rw [along_concat] at precedes
    obtain ⟨next, before, near⟩ := precedes.exists_previous
    rcases joint : l.joint with _ | _ | _ | _ <;> rw [joint] at before <;> cases before
    · rcases near with rfl | far
      · exact comesFrom_last (by rw [joint]; rfl)
      · refine (ih far).concat fun k slack begins => ?_
        rw [passes k slack begins, joint]
        rfl
    · -- Between the two stands an element without a compound.
      rcases near with rfl | far
      · exact absurd rfl labelled
      · obtain ⟨_, before, near⟩ := far.exists_previous
        cases before
        rcases near with rfl | far
        · exact comesFrom_last (by rw [joint]; rfl)
        · refine (ih far).concat fun k slack begins => ?_
          rw [passes k slack begins, joint]
          rfl

private theorem comesFrom_ancestor (labelled : label? path ≠ none)
    (ancestor : pathTree.Ancestor path (along links label)) : ComesFrom links none path := by
  induction links using List.reverseRecOn generalizing label with
  | nil =>
    obtain ⟨_, above, near⟩ := ancestor.exists_parent
    cases above
    rcases near with rfl | far
    · exact absurd rfl labelled
    · obtain ⟨_, above, _⟩ := far.exists_parent
      cases above
  | append_singleton links l ih =>
    have passes : ∀ k slack, slackBehind none k = some slack → slack = .anywhere := by
      intro k slack begins
      rcases k with _ | _ | _ | _ <;> cases begins <;> rfl
    have later : ComesFrom links none path → ComesFrom (links ++ [l]) none path := by
      intro comes
      refine comes.concat fun k slack begins => ?_
      rw [passes k slack begins]
      rfl
    rw [along_concat] at ancestor
    rcases joint : l.joint with _ | _ | _ | _ <;> rw [joint] at ancestor
    · obtain ⟨_, above, near⟩ := ancestor.exists_parent
      cases above
      rcases near with rfl | far
      · exact absurd rfl labelled
      · obtain ⟨_, above, near⟩ := far.exists_parent
        cases above
        rcases near with rfl | far
        · exact comesFrom_last (by rw [joint]; rfl)
        · exact later (ih far)
    · obtain ⟨_, above, near⟩ := ancestor.exists_parent
      cases above
      rcases near with rfl | far
      · exact comesFrom_last (by rw [joint]; rfl)
      · exact later (ih far)
    · exact later (ih (ancestor.of_parent_eq rfl))
    · exact later (ih (ancestor.of_parent_eq rfl))

/-- All that is joined to a path along links comes from one of them. -/
theorem comesFrom_of_joined {joint : Option Combinator} (labelled : label? path ≠ none)
    (joined : pathTree.Joined joint path (along links label)) : ComesFrom links joint path := by
  rcases joint with _ | _ | _ | _
  · exact comesFrom_ancestor labelled joined
  · exact comesFrom_parent labelled joined
  · exact comesFrom_previous labelled joined
  · exact comesFrom_precedes labelled joined

end Path

end Paths

section Complete

private theorem occurs_nil_of_admits {slack : Slack} {links : List Link}
    (admits : ∀ l ∈ links, slack.admits l.joint = true) : occurs slack [] links = true := by
  induction links with
  | nil => rfl
  | cons l rest ih =>
    rw [occurs, Bool.and_eq_true]
    exact ⟨admits l (List.mem_cons_self ..), ih fun x member => admits x (List.mem_cons_of_mem _ member)⟩

private theorem occurs_append {slack : Slack} {wanted links more others : List Link}
    (first : occurs slack wanted links = true) (second : ∀ slack, occurs slack more others = true) :
    occurs slack (wanted ++ more) (links ++ others) = true := by
  fun_induction occurs slack wanted links with
  | case1 slack => exact second slack
  | case2 => simp at first
  | case3 slack l rest ih =>
    simp only [Bool.and_eq_true] at first
    have later := ih first.2
    cases more with
    | nil =>
      simp only [List.append_nil, List.cons_append] at later ⊢
      rw [occurs, first.1, later]
      rfl
    | cons d more =>
      simp only [List.nil_append, List.cons_append] at later ⊢
      rw [occurs, first.1, later]
      rfl
  | case4 slack d rest' l rest skip take =>
    simp only [Bool.or_eq_true, Bool.and_eq_true] at first
    simp only [List.cons_append] at skip ⊢
    rw [occurs, Bool.or_eq_true]
    rcases first with ⟨admits, later⟩ | ⟨implied, later⟩
    · exact .inl (by rw [admits, skip later]; rfl)
    · right
      cases begins : slackBehind d.joint l.joint with
      | none => simp [begins] at later
      | some next =>
        rw [begins] at later
        simp only [implied, take next later, Bool.and_self]

theorem isImpliedBy_of_meets_along {c d : Compound} {links : List Link}
    (meets : pathTree.Meets c (Path.along links (some d))) : c.isImpliedBy d = true := by
  refine List.all_eq_true.mpr fun s member => ?_
  obtain ⟨d', label, t, found, same⟩ := meets s member
  rw [Path.label?_along] at label
  cases label
  exact List.any_eq_true.mpr ⟨t, found, same⟩

theorem occurs_of_afterAll {wanted links : List Link} {label : Option Compound}
    (filled : ∀ d ∈ wanted, d.compound.members ≠ [])
    (found : pathTree.AfterAll (fun _ => True) wanted (Path.along links label)) :
    occurs .anywhere wanted links = true := by
  induction wanted using List.reverseRecOn generalizing links label with
  | nil => exact occurs_nil_of_admits fun _ _ => rfl
  | append_singleton wanted d ih =>
    rw [ElementTree.AfterAll, List.foldl_append] at found
    obtain ⟨path, joined, meets, earlier⟩ := found
    have labelled : Path.label? path ≠ none := by
      obtain ⟨s, member⟩ := List.exists_mem_of_ne_nil _ (filled d (by simp))
      obtain ⟨c, label, _⟩ := meets s member
      simp [label]
    obtain ⟨before, l, after, slack, rfl, rfl, begins, between⟩ :=
      Path.comesFrom_of_joined labelled joined
    apply occurs_append
    · exact ih (fun x member => filled x (List.mem_append_left _ member)) earlier
    · intro start
      rw [occurs, begins, isImpliedBy_of_meets_along meets]
      simp [occurs_nil_of_admits between]

end Complete

/-- Whatever the last compound is, an element that matches the first chain with it also matches
the other chain with it. -/
def Chain.Implies (chain other : Chain) : Prop :=
  ∀ (tree : ElementTree) (last : Compound) (e : tree.Element),
    tree.Matches (chain ++ [.compound last]) e → tree.Matches (other ++ [.compound last]) e

theorem Chain.members_ne_nil_of_mem_links {chain : Chain} (proper : chain.isProper = true) :
    ∀ l ∈ chain.links, l.compound.members ≠ [] := by
  fun_induction Chain.links chain with
  | case1 => simp
  | case2 c k rest ih =>
    simp only [isProper, Bool.and_eq_true, Bool.not_eq_true', List.isEmpty_eq_false_iff] at proper
    simpa using ⟨proper.1, ih proper.2⟩
  | case3 c rest other ih =>
    rw [isProper.eq_3 _ _ other] at proper
    simp only [Bool.and_eq_true, Bool.not_eq_true', List.isEmpty_eq_false_iff] at proper
    simpa using ⟨proper.1, ih proper.2⟩
  | case4 => simp [isProper] at proper

/-- A chain implies exactly those that occur in it. -/
theorem Chain.implies_iff_occursIn {chain other : Chain} (proper : chain.isProper = true)
    (proper' : other.isProper = true) : chain.Implies other ↔ other.occursIn chain = true := by
  constructor
  · intro implies
    let nothing : Compound := .mk none []
    have path : pathTree.Matches (chain ++ [.compound nothing]) (Path.along chain.links none) := by
      refine (pathTree.matches_append_iff chain nothing _).mpr ⟨?_, ?_⟩
      · intro s member
        simp [nothing, Compound.members, Compound.base, Compound.rest] at member
      · rw [pathTree.behind_eq_afterAll _ proper]
        exact Path.afterAll_along _ _
    have behind := ((pathTree.matches_append_iff other nothing _).mp (implies _ _ _ path)).2
    rw [pathTree.behind_eq_afterAll _ proper'] at behind
    exact occurs_of_afterAll (members_ne_nil_of_mem_links proper') behind
  · intro occur tree last e
    rw [ElementTree.matches_append_iff, ElementTree.matches_append_iff]
    rintro ⟨meets, behind⟩
    exact ⟨meets, ElementTree.behind_of_occursIn proper' proper occur (fun _ holds => holds)
      tree.inherited_true e behind⟩

end Stylesheet
