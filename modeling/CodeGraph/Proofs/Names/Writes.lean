import CodeGraph.Proofs.Names.Scopes
import CodeGraph.Proofs.Text.Pieces

namespace CodeGraph

open Syntax

/-! The forms of typed writes.  An assignment writes the class that its hint names or else the one
that it constructs, at the end of a chain too.  A walrus expression and a `with` item write what
they construct, and a parameter has the class of its hint. -/

namespace Text

theorem not_mem_afterLast (separator : Char) (text : List Char) :
    separator ∉ afterLast separator text := by
  rw [afterLast, List.mem_reverse]
  intro hmem
  simpa using List.mem_takeWhile_imp hmem

theorem eq_or_eq_append_afterLast (separator : Char) (text : List Char) :
    text = afterLast separator text ∨
      ∃ front, text = front ++ separator :: afterLast separator text := by
  have hsplit : text = (text.reverse.dropWhile (· ≠ separator)).reverse ++
      afterLast separator text := by
    rw [afterLast, ← List.reverse_append, List.takeWhile_append_dropWhile, List.reverse_reverse]
  cases hrest : text.reverse.dropWhile (· ≠ separator) with
  | nil =>
      rw [hrest] at hsplit
      exact .inl hsplit
  | cons first rest =>
      have hfirst : first = separator := by
        have hstop := List.head?_dropWhile_not (· ≠ separator) text.reverse
        rw [hrest] at hstop
        simpa using hstop
      rw [hrest, hfirst, List.reverse_cons, List.append_assoc] at hsplit
      exact .inr ⟨rest.reverse, hsplit⟩

/-- The text behind the last dot, or all of it where there is none. -/
def IsLastPart (text part : String) : Prop :=
  '.' ∉ part.toList ∧ (text = part ∨ ∃ front, text = front ++ "." ++ part)

theorem isLastPart_iff {text part : String} : IsLastPart text part ↔ lastSegment text = part := by
  constructor
  · rintro ⟨hdot, rfl | ⟨front, rfl⟩⟩
    · have hlast := @afterLast_append '.' [] text.toList hdot (by simp)
      rw [List.nil_append] at hlast
      rw [lastSegment, hlast, String.ofList_toList]
    · rw [lastSegment, String.toList_append, String.toList_append, List.append_assoc]
      exact (congrArg String.ofList (afterLast_append_cons front.toList hdot)).trans
        String.ofList_toList
  · rintro rfl
    rw [IsLastPart, lastSegment, String.toList_ofList]
    refine ⟨not_mem_afterLast _ _, ?_⟩
    obtain hall | ⟨front, hfront⟩ := eq_or_eq_append_afterLast '.' text.toList
    · exact .inl (by rw [← hall, String.ofList_toList])
    · exact .inr ⟨String.ofList front, String.toList_inj.mp (by simpa using hfront)⟩

end Text

namespace Names

/-! What is written -/

/-- The class that a name stands for: what it imports, under the name it has there, else itself. -/
inductive StandsFor (imports : Imports) (name : String) : String → Prop where
  | imported {imported : Imported} {type : String} (himported : imports.get? name = some imported)
      (htype : Text.IsLastPart imported.symbol type) : StandsFor imports name type
  | itself (hown : imports.get? name = none) : StandsFor imports name name

theorem standsFor_iff {imports : Imports} {name type : String} :
    StandsFor imports name type ↔ unalias imports name = type := by
  unfold unalias
  constructor
  · intro hstands
    cases hstands with
    | imported himported htype =>
        rw [himported]
        exact Text.isLastPart_iff.mp htype
    | itself hown => rw [hown]
  · rintro rfl
    split
    · next imported himported => exact .imported himported (Text.isLastPart_iff.mpr rfl)
    · next hown => exact .itself hown

/-- The variable that is assigned to, or the attribute of `self` or `cls`. -/
inductive IsTarget (target : SyntaxTree) : String → Prop where
  | plain (hkind : target.kind = .identifier) : IsTarget target target.text
  | owned {object member : SyntaxTree} (hkind : target.kind = .memberAccess)
      (hobject : target.part? .object = some object) (hmember : target.part? .member = some member)
      (hidentifier : object.kind = .identifier)
      (howner : object.text = "self" ∨ object.text = "cls") :
      IsTarget target (object.text ++ "." ++ member.text)

theorem isTarget_iff {target : SyntaxTree} {key : String} :
    IsTarget target key ↔ targetKey? target = some key := by
  constructor
  · intro htarget
    cases htarget with
    | plain hkind => rw [targetKey?, hkind]
    | owned hkind hobject hmember hidentifier howner =>
        simp [targetKey?, hkind, hobject, hmember, hidentifier, howner]
  · intro hkey
    unfold targetKey? at hkey
    split at hkey
    · next hkind =>
        cases hkey
        exact .plain hkind
    · next hkind =>
        simp only [Option.bind_eq_bind, Option.bind_eq_some_iff, Option.ite_none_right_eq_some,
          Option.some.injEq] at hkey
        obtain ⟨object, hobject, member, hmember, ⟨hidentifier, howner⟩, rfl⟩ := hkey
        exact .owned hkind hobject hmember hidentifier howner
    · cases hkey

/-- Any call counts as the construction of the class it names. -/
inductive Constructs (imports : Imports) (value : SyntaxTree) : String → Prop where
  | named {function : SyntaxTree} {type : String} (hcall : value.kind = .call)
      (hfunction : value.part? .function = some function) (hkind : function.kind = .identifier)
      (htype : StandsFor imports function.text type) : Constructs imports value type
  | member {function member : SyntaxTree} {type : String} (hcall : value.kind = .call)
      (hfunction : value.part? .function = some function) (hkind : function.kind = .memberAccess)
      (hmember : function.part? .member = some member)
      (htype : Text.IsLastPart member.text type) : Constructs imports value type

theorem Constructs.kind_eq {imports : Imports} {value : SyntaxTree} {type : String}
    (hconstructs : Constructs imports value type) : value.kind = .call := by
  cases hconstructs <;> assumption

theorem constructs_iff {imports : Imports} {value : SyntaxTree} {type : String} :
    Constructs imports value type ↔ constructedType? imports value = some type := by
  constructor
  · intro hconstructs
    cases hconstructs with
    | named hcall hfunction hkind htype =>
        simp [constructedType?, hcall, hfunction, hkind, standsFor_iff.mp htype]
    | member hcall hfunction hkind hmember htype =>
        simp [constructedType?, hcall, hfunction, hkind, hmember, Text.isLastPart_iff.mp htype]
  · intro htype
    rw [constructedType?, Option.ite_none_right_eq_some] at htype
    obtain ⟨hcall, htype⟩ := htype
    simp only [Option.bind_eq_bind, Option.bind_eq_some_iff] at htype
    obtain ⟨function, hfunction, htype⟩ := htype
    split at htype
    · next hkind => exact .named hcall hfunction hkind (standsFor_iff.mpr (Option.some.inj htype))
    · next hkind =>
        obtain ⟨member, hmember, hlast⟩ := Option.map_eq_some_iff.mp htype
        exact .member hcall hfunction hkind hmember (Text.isLastPart_iff.mpr hlast)
    · cases htype

/-- The value at the end of an assignment such as `a = b = value`. -/
inductive Assigns : SyntaxTree → SyntaxTree → Prop where
  | value {statement value : SyntaxTree} (hvalue : statement.part? .right = some value)
      (hkind : value.kind ≠ .assignment) : Assigns statement value
  | chain {statement next value : SyntaxTree} (hnext : statement.part? .right = some next)
      (hkind : next.kind = .assignment) (hvalue : Assigns next value) : Assigns statement value

theorem chainEndOf?_eq (trees : List SyntaxTree) :
    chainEndOf? trees = (trees.find? fun tree => tree.role == some .right).bind chainEnd? := by
  induction trees with
  | nil =>
      rw [chainEndOf?]
      rfl
  | cons tree rest ih =>
      rw [chainEndOf?, List.find?_cons, ih]
      by_cases hrole : tree.role = some .right
      · simp [hrole]
      · rw [if_neg hrole, beq_eq_false_iff_ne.mpr hrole]

theorem chainEnd?_of_ne {tree : SyntaxTree} (hkind : tree.kind ≠ .assignment) :
    chainEnd? tree = some tree := by
  cases tree
  rw [chainEnd?]
  exact if_neg hkind

theorem chainEnd?_of_eq {tree : SyntaxTree} (hkind : tree.kind = .assignment) :
    chainEnd? tree = chainEndOf? tree.children := by
  cases tree
  rw [chainEnd?]
  exact if_pos hkind

theorem Assigns.chainEndOf?_eq {statement value : SyntaxTree} (hassigns : Assigns statement value) :
    chainEndOf? statement.children = some value := by
  induction hassigns with
  | value hvalue hkind =>
      rw [Names.chainEndOf?_eq]
      exact Option.bind_eq_some_iff.mpr ⟨_, hvalue, chainEnd?_of_ne hkind⟩
  | chain hnext hkind _ ih =>
      rw [Names.chainEndOf?_eq]
      exact Option.bind_eq_some_iff.mpr ⟨_, hnext, (chainEnd?_of_eq hkind).trans ih⟩

theorem sizeOf_lt_of_part? {tree part : SyntaxTree} {role : Role}
    (hpart : tree.part? role = some part) : sizeOf part < sizeOf tree := by
  have hlt := List.sizeOf_lt_of_mem (List.mem_of_find?_eq_some hpart)
  cases tree
  simp only [SyntaxTree.children_node, SyntaxTree.node.sizeOf_spec] at hlt ⊢
  omega

theorem assigns_of_chainEndOf? {statement value : SyntaxTree}
    (hend : chainEndOf? statement.children = some value) : Assigns statement value := by
  rw [chainEndOf?_eq] at hend
  obtain ⟨right, hright, hend⟩ := Option.bind_eq_some_iff.mp hend
  by_cases hkind : right.kind = .assignment
  · rw [chainEnd?_of_eq hkind] at hend
    exact .chain hright hkind (assigns_of_chainEndOf? hend)
  · rw [chainEnd?_of_ne hkind] at hend
    cases hend
    exact .value hright hkind
termination_by sizeOf statement
decreasing_by exact sizeOf_lt_of_part? hright

/-- The hint of a statement or of a parameter names the class. -/
def IsHinted (statement : SyntaxTree) (type : String) : Prop :=
  ∃ hint, statement.part? .type = some hint ∧ TypeHint.className? hint.text = some type

theorem isHinted_iff {statement : SyntaxTree} {type : String} :
    IsHinted statement type ↔ hintedType? statement = some type := by
  rw [hintedType?, Option.bind_eq_some_iff, IsHinted]

/-- The node gives the variable or attribute `key` the class `type`. -/
inductive Writes (imports : Imports) (tree : SyntaxTree) (key type : String) : Prop where
  /-- `key: type` and `key: type = value` -/
  | annotated {target : SyntaxTree} (hkind : tree.kind = .assignment)
      (hleft : tree.part? .left = some target) (htarget : IsTarget target key)
      (hhint : IsHinted tree type)
  /-- `key = type()` -/
  | constructed {target value : SyntaxTree} (hkind : tree.kind = .assignment)
      (hleft : tree.part? .left = some target) (htarget : IsTarget target key)
      (hunhinted : ∀ hinted, ¬ IsHinted tree hinted) (hvalue : tree.part? .right = some value)
      (htype : Constructs imports value type)
  /-- `key = other = type()` -/
  | chained {target next value : SyntaxTree} (hkind : tree.kind = .assignment)
      (hleft : tree.part? .left = some target) (htarget : IsTarget target key)
      (hunhinted : ∀ hinted, ¬ IsHinted tree hinted) (hnext : tree.part? .right = some next)
      (hchain : next.kind = .assignment) (hvalue : Assigns next value)
      (htype : Constructs imports value type)
  /-- `key := type()` -/
  | walrus {name value : SyntaxTree} (hkind : tree.kind = .namedExpression)
      (hname : tree.part? .name = some name) (hkey : name.text = key)
      (hvalue : tree.part? .value = some value) (htype : Constructs imports value type)
  /-- `with type() as key` -/
  | withAs {pattern value binding target : SyntaxTree} (hkind : tree.kind = .withItem)
      (hpattern : tree.part? .value = some pattern) (has : pattern.kind = .asPattern)
      (hvalue : pattern.firstNamed? = some value) (hbinding : pattern.part? .binding = some binding)
      (hbound : if binding.kind = .asPatternTarget then binding.firstNamed? = some target
        else binding = target)
      (htarget : IsTarget target key) (htype : Constructs imports value type)

theorem writes_of_assignmentWrite? {imports : Imports} {tree : SyntaxTree} {key type : String}
    (hkind : tree.kind = .assignment) (hwrite : assignmentWrite? imports tree = some (key, type)) :
    Writes imports tree key type := by
  simp only [assignmentWrite?, Option.bind_eq_bind, Option.bind_eq_some_iff, Option.pure_def,
    Option.some.injEq, Prod.mk.injEq, Option.orElse_eq_or, Option.or_eq_some_iff] at hwrite
  obtain ⟨target, hleft, _, hkey, _, htype, rfl, rfl⟩ := hwrite
  have htarget := isTarget_iff.mpr hkey
  obtain hhint | ⟨hnone, value, hend, htype⟩ := htype
  · exact .annotated hkind hleft htarget (isHinted_iff.mpr hhint)
  · have hunhinted : ∀ hinted, ¬ IsHinted tree hinted := by simp [isHinted_iff, hnone]
    have hconstructs := constructs_iff.mpr htype
    cases assigns_of_chainEndOf? hend with
    | value hvalue => exact .constructed hkind hleft htarget hunhinted hvalue hconstructs
    | chain hnext hchain hvalue =>
        exact .chained hkind hleft htarget hunhinted hnext hchain hvalue hconstructs

theorem writes_of_withItemWrite? {imports : Imports} {tree : SyntaxTree} {key type : String}
    (hkind : tree.kind = .withItem) (hwrite : withItemWrite? imports tree = some (key, type)) :
    Writes imports tree key type := by
  simp only [withItemWrite?, Option.bind_eq_bind, Option.bind_eq_some_iff, Option.pure_def,
    Option.ite_none_right_eq_some] at hwrite
  obtain ⟨pattern, hpattern, has, value, hvalue, binding, hbinding, hwrite⟩ := hwrite
  obtain ⟨target, hbound, hwrite⟩ : ∃ target,
      (if binding.kind = .asPatternTarget then binding.firstNamed? = some target
        else binding = target) ∧
      (targetKey? target).bind (fun key => (constructedType? imports value).bind
        fun type => some (key, type)) = some (key, type) := by
    split at hwrite
    · next htarget => simpa [htarget, Option.bind_eq_some_iff] using hwrite
    · next htarget => exact ⟨binding, by simp [htarget], hwrite⟩
  simp only [Option.bind_eq_some_iff, Option.some.injEq, Prod.mk.injEq] at hwrite
  obtain ⟨_, hkey, _, htype, rfl, rfl⟩ := hwrite
  exact .withAs hkind hpattern has hvalue hbinding hbound (isTarget_iff.mpr hkey)
    (constructs_iff.mpr htype)

/-- A node writes what one of the forms says. -/
theorem write?_eq_some_iff {imports : Imports} {tree : SyntaxTree} {key type : String} :
    write? imports tree = some (key, type) ↔ Writes imports tree key type := by
  constructor
  · intro hwrite
    unfold write? at hwrite
    split at hwrite
    · next hkind => exact writes_of_assignmentWrite? hkind hwrite
    · next hkind =>
        simp only [namedExpressionWrite?, Option.bind_eq_bind, Option.bind_eq_some_iff,
          Option.pure_def, Option.some.injEq, Prod.mk.injEq] at hwrite
        obtain ⟨name, hname, value, hvalue, _, htype, rfl, rfl⟩ := hwrite
        exact .walrus hkind hname rfl hvalue (constructs_iff.mpr htype)
    · next hkind => exact writes_of_withItemWrite? hkind hwrite
    · cases hwrite
  · intro hwrites
    have hassignment : ∀ {target value}, tree.kind = .assignment →
        tree.part? .left = some target → IsTarget target key →
        (∀ hinted, ¬ IsHinted tree hinted) → Assigns tree value → Constructs imports value type →
        write? imports tree = some (key, type) := by
      intro target value hkind hleft htarget hunhinted hassigns htype
      have hnone : hintedType? tree = none :=
        Option.eq_none_iff_forall_ne_some.mpr fun hinted hhint =>
          hunhinted hinted (isHinted_iff.mpr hhint)
      simp [write?, hkind, assignmentWrite?, hleft, isTarget_iff.mp htarget, hnone,
        hassigns.chainEndOf?_eq, constructs_iff.mp htype]
    cases hwrites with
    | annotated hkind hleft htarget hhint =>
        simp [write?, hkind, assignmentWrite?, hleft, isTarget_iff.mp htarget,
          isHinted_iff.mp hhint]
    | constructed hkind hleft htarget hunhinted hvalue htype =>
        have hcall := htype.kind_eq
        exact hassignment hkind hleft htarget hunhinted (.value hvalue (by simp [hcall])) htype
    | chained hkind hleft htarget hunhinted hnext hchain hvalue htype =>
        exact hassignment hkind hleft htarget hunhinted (.chain hnext hchain hvalue) htype
    | walrus hkind hname hkey hvalue htype =>
        simp [write?, hkind, namedExpressionWrite?, hname, hkey, hvalue, constructs_iff.mp htype]
    | withAs hkind hpattern has hvalue hbinding hbound htarget htype =>
        split at hbound
        all_goals
          simp_all [write?, withItemWrite?, isTarget_iff.mp htarget, constructs_iff.mp htype]

/-! Parameters -/

/-- The parameter `name` has a hint that names the class `type`. -/
inductive Annotates (parameter : SyntaxTree) (name type : String) : Prop where
  /-- `name: type` -/
  | typed {target : SyntaxTree} (hkind : parameter.kind = .typedParameter)
      (htarget : parameter.firstNamed? = some target) (hidentifier : target.kind = .identifier)
      (hname : target.text = name) (hhint : IsHinted parameter type)
  /-- `*name: type` and `**name: type` -/
  | starred {target inner : SyntaxTree} (hkind : parameter.kind = .typedParameter)
      (htarget : parameter.firstNamed? = some target)
      (hstar : target.kind = .listSplatPattern ∨ target.kind = .dictionarySplatPattern)
      (hinner : target.namedChildren.find? (fun child => child.kind == .identifier) = some inner)
      (hname : inner.text = name) (hhint : IsHinted parameter type)
  /-- `name: type = value` -/
  | withDefault {target : SyntaxTree} (hkind : parameter.kind = .typedDefaultParameter)
      (htarget : parameter.part? .name = some target) (hname : target.text = name)
      (hhint : IsHinted parameter type)

theorem parameterType?_eq_some_iff {parameter : SyntaxTree} {name type : String} :
    parameterType? parameter = some (name, type) ↔ Annotates parameter name type := by
  constructor
  · intro htype
    unfold parameterType? at htype
    split at htype
    · next hkind =>
        simp only [Option.bind_eq_bind, Option.bind_eq_some_iff, Option.pure_def,
          Option.some.injEq, Prod.mk.injEq] at htype
        obtain ⟨hint, hpart, _, ⟨target, htarget, hname⟩, _, hclass, rfl, rfl⟩ := htype
        unfold parameterName? at hname
        split at hname
        · next hidentifier =>
            exact .typed hkind htarget hidentifier (Option.some.inj hname) ⟨hint, hpart, hclass⟩
        · next hstar =>
            obtain ⟨inner, hinner, hname⟩ := Option.map_eq_some_iff.mp hname
            exact .starred hkind htarget (.inl hstar) hinner hname ⟨hint, hpart, hclass⟩
        · next hstar =>
            obtain ⟨inner, hinner, hname⟩ := Option.map_eq_some_iff.mp hname
            exact .starred hkind htarget (.inr hstar) hinner hname ⟨hint, hpart, hclass⟩
        · cases hname
    · next hkind =>
        simp only [Option.bind_eq_bind, Option.bind_eq_some_iff, Option.pure_def,
          Option.some.injEq, Prod.mk.injEq] at htype
        obtain ⟨target, htarget, hint, hpart, _, hclass, rfl, rfl⟩ := htype
        exact .withDefault hkind htarget rfl ⟨hint, hpart, hclass⟩
    · cases htype
  · intro hannotates
    cases hannotates with
    | typed hkind htarget hidentifier hname hhint =>
        obtain ⟨hint, hpart, hclass⟩ := hhint
        simp [parameterType?, hkind, htarget, hpart, hclass, parameterName?, hidentifier, hname]
    | starred hkind htarget hstar hinner hname hhint =>
        obtain ⟨hint, hpart, hclass⟩ := hhint
        obtain hstar | hstar := hstar <;>
          simp [parameterType?, hkind, htarget, hpart, hclass, parameterName?, hstar, hinner, hname]
    | withDefault hkind htarget hname hhint =>
        obtain ⟨hint, hpart, hclass⟩ := hhint
        simp [parameterType?, hkind, htarget, hpart, hclass, hname]

/-! Scopes -/

/-- The last of the nodes that gives a type. -/
def LastGives (gives : SyntaxTree → String → Prop) (nodes : List SyntaxTree) (type : String) :
    Prop :=
  ∃ before node after, nodes = before ++ node :: after ∧ gives node type ∧
    ∀ later ∈ after, ∀ other, ¬ gives later other

theorem lastGives_concat {gives : SyntaxTree → String → Prop} {nodes : List SyntaxTree}
    {node : SyntaxTree} {type : String} :
    LastGives gives (nodes ++ [node]) type ↔
      gives node type ∨ (∀ other, ¬ gives node other) ∧ LastGives gives nodes type := by
  constructor
  · rintro ⟨before, found, after, hsplit, hfound, hlater⟩
    obtain rfl | ⟨rest, last, rfl⟩ := after.eq_nil_or_concat
    · obtain ⟨-, hnode⟩ := List.append_inj' hsplit rfl
      cases hnode
      exact .inl hfound
    · rw [List.concat_eq_append, ← List.cons_append, ← List.append_assoc] at hsplit
      obtain ⟨rfl, hnode⟩ := List.append_inj' hsplit rfl
      cases hnode
      exact .inr ⟨hlater node (by simp), before, found, rest, rfl, hfound,
        fun later hmem => hlater later (by simp [hmem])⟩
  · rintro (hnode | ⟨hnone, before, found, after, rfl, hfound, hlater⟩)
    · exact ⟨nodes, node, [], rfl, hnode, nofun⟩
    · refine ⟨before, found, after ++ [node], by simp, hfound, ?_⟩
      simpa [or_imp, forall_and] using ⟨hlater, hnone⟩

section

variable {given? : SyntaxTree → Option (String × String)} {gives : SyntaxTree → String → Prop}
  {name : String} (hgives : ∀ node type, given? node = some (name, type) ↔ gives node type)

include hgives

theorem lastGives_iff {nodes : List SyntaxTree} {type : String} :
    LastGives gives nodes type ↔
      ((nodes.filterMap given?).reverse.find? fun given => given.1 == name).map Prod.snd =
        some type := by
  induction nodes using List.reverseRecOn with
  | nil => simp [LastGives]
  | append_singleton nodes node ih =>
      rw [lastGives_concat, ih]
      simp only [← hgives, List.filterMap_append, List.filterMap_cons, List.filterMap_nil]
      cases given? node with
      | none => simp
      | some given =>
          obtain ⟨other, found⟩ := given
          by_cases hname : other = name <;> simp [hname]

theorem forall_not_iff {nodes : List SyntaxTree} :
    (∀ node ∈ nodes, ∀ type, ¬ gives node type) ↔
      ((nodes.filterMap given?).reverse.find? fun given => given.1 == name).map Prod.snd =
        none := by
  simp only [← hgives, Option.map_eq_none_iff, List.find?_eq_none, List.mem_reverse,
    List.mem_filterMap, beq_iff_eq, Prod.forall]
  constructor
  · rintro hnone other type ⟨node, hmem, hgiven⟩ rfl
    exact hnone node hmem type hgiven
  · intro hnone node hmem type hgiven
    exact hnone name type ⟨node, hmem, hgiven⟩ rfl

end

/-- What a function, a class or the top level gives a variable: its last write or, in a function
without one, its parameter. -/
inductive ScopeGives (imports : Imports) (name : String) (scope : SyntaxTree) (type : String) :
    Prop where
  | functionBody {body : SyntaxTree} (hkind : scope.kind = .functionDefinition)
      (hbody : scope.part? .body = some body)
      (hwrite : LastGives (Writes imports · name) (ownNodesOfAll body.children) type)
  | parameter {parameters : SyntaxTree} (hkind : scope.kind = .functionDefinition)
      (hunwritten : ∀ body, scope.part? .body = some body →
        ∀ node ∈ ownNodesOfAll body.children, ∀ other, ¬ Writes imports node name other)
      (hparameters : scope.part? .parameters = some parameters)
      (hparameter : LastGives (Annotates · name) parameters.namedChildren type)
  | classBody {body : SyntaxTree} (hkind : scope.kind = .classDefinition)
      (hbody : scope.part? .body = some body)
      (hwrite : LastGives (Writes imports · name) (ownNodesOfAll body.children) type)
  | topLevel (hkind : scope.kind ≠ .functionDefinition ∧ scope.kind ≠ .classDefinition)
      (hwrite : LastGives (Writes imports · name) (ownNodesOfAll scope.children) type)

theorem lastGives_writes_iff {imports : Imports} {name type : String} {scope : SyntaxTree} :
    LastGives (Writes imports · name) (ownNodesOfAll scope.children) type ↔
      lastWrite? imports name scope = some type :=
  lastGives_iff fun _ _ => write?_eq_some_iff

theorem unwritten_iff {imports : Imports} {name : String} {scope : SyntaxTree} :
    (∀ node ∈ ownNodesOfAll scope.children, ∀ type, ¬ Writes imports node name type) ↔
      lastWrite? imports name scope = none :=
  forall_not_iff fun _ _ => write?_eq_some_iff

theorem lastParameter?_eq_some_iff {name type : String} {function : SyntaxTree} :
    lastParameter? name function = some type ↔
      ∃ parameters, function.part? .parameters = some parameters ∧
        LastGives (Annotates · name) parameters.namedChildren type := by
  rw [lastParameter?, Option.bind_eq_some_iff]
  exact exists_congr fun parameters => and_congr_right fun _ =>
    (lastGives_iff fun _ _ => parameterType?_eq_some_iff).symm

theorem scopeGives_iff {imports : Imports} {name type : String} {scope : SyntaxTree} :
    ScopeGives imports name scope type ↔ scopeType? imports name scope = some type := by
  constructor
  · intro hgives
    cases hgives with
    | functionBody hkind hbody hwrite =>
        simp [scopeType?, hkind, hbody, lastGives_writes_iff.mp hwrite]
    | parameter hkind hunwritten hparameters hparameter =>
        have hnone : (scope.part? .body).bind (lastWrite? imports name) = none :=
          Option.bind_eq_none_iff.mpr fun body hbody => unwritten_iff.mp (hunwritten body hbody)
        rw [scopeType?, hkind]
        dsimp only
        rw [hnone, Option.none_or]
        exact lastParameter?_eq_some_iff.mpr ⟨_, hparameters, hparameter⟩
    | classBody hkind hbody hwrite =>
        simp [scopeType?, hkind, hbody, lastGives_writes_iff.mp hwrite]
    | topLevel hkind hwrite =>
        rw [scopeType?]
        split
        · exact absurd ‹_› hkind.1
        · exact absurd ‹_› hkind.2
        · exact lastGives_writes_iff.mp hwrite
  · intro htype
    unfold scopeType? at htype
    split at htype
    · next hkind =>
        obtain hwrite | ⟨hnone, hparameter⟩ := Option.or_eq_some_iff.mp htype
        · obtain ⟨body, hbody, hwrite⟩ := Option.bind_eq_some_iff.mp hwrite
          exact .functionBody hkind hbody (lastGives_writes_iff.mpr hwrite)
        · obtain ⟨parameters, hparameters, hparameter⟩ := lastParameter?_eq_some_iff.mp hparameter
          refine .parameter hkind (fun body hbody => ?_) hparameters hparameter
          exact unwritten_iff.mpr (Option.bind_eq_none_iff.mp hnone body hbody)
    · next hkind =>
        obtain ⟨body, hbody, hwrite⟩ := Option.bind_eq_some_iff.mp htype
        exact .classBody hkind hbody (lastGives_writes_iff.mpr hwrite)
    · next hfunction hclass =>
        exact .topLevel ⟨hfunction, hclass⟩ (lastGives_writes_iff.mpr htype)

/-- What the scopes around another one give a variable in it, the nearest first.  Class bodies are
skipped. -/
inductive SeesAround (imports : Imports) (name : String) : List SyntaxTree → String → Prop where
  | here {scope : SyntaxTree} {outer : List SyntaxTree} {type : String}
      (hkind : scope.kind ≠ .classDefinition) (htype : ScopeGives imports name scope type) :
      SeesAround imports name (scope :: outer) type
  | further {scope : SyntaxTree} {outer : List SyntaxTree} {type : String}
      (hskip : scope.kind = .classDefinition ∨ ∀ other, ¬ ScopeGives imports name scope other)
      (htype : SeesAround imports name outer type) : SeesAround imports name (scope :: outer) type

/-- The type of a variable where the scopes are open, the innermost of them first.  Only the
innermost may be a class body. -/
inductive Sees (imports : Imports) (name : String) : List SyntaxTree → String → Prop where
  | inside {inner : SyntaxTree} {outer : List SyntaxTree} {type : String}
      (htype : ScopeGives imports name inner type) : Sees imports name (inner :: outer) type
  | around {inner : SyntaxTree} {outer : List SyntaxTree} {type : String}
      (hnone : ∀ other, ¬ ScopeGives imports name inner other)
      (htype : SeesAround imports name outer type) : Sees imports name (inner :: outer) type

theorem forall_not_scopeGives_iff {imports : Imports} {name : String} {scope : SyntaxTree} :
    (∀ type, ¬ ScopeGives imports name scope type) ↔ scopeType? imports name scope = none := by
  simp only [scopeGives_iff, Option.eq_none_iff_forall_ne_some, ne_eq]

theorem seesAround_iff {imports : Imports} {name type : String} {scopes : List SyntaxTree} :
    SeesAround imports name scopes type ↔
      (scopes.filter fun scope => scope.kind != .classDefinition).findSome?
        (scopeType? imports name) = some type := by
  induction scopes with
  | nil => exact ⟨nofun, nofun⟩
  | cons scope outer ih =>
      rw [List.filter_cons]
      constructor
      · intro hsees
        cases hsees with
        | here hkind htype => simp [hkind, scopeGives_iff.mp htype]
        | further hskip htype =>
            obtain hclass | hnone := hskip
            · simpa [hclass] using ih.mp htype
            · rw [forall_not_scopeGives_iff] at hnone
              split
              · rw [List.findSome?_cons, hnone]
                exact ih.mp htype
              · exact ih.mp htype
      · intro hseen
        split at hseen
        · next hkind =>
            rw [List.findSome?_cons] at hseen
            cases hgiven : scopeType? imports name scope with
            | some given =>
                rw [hgiven] at hseen
                cases hseen
                exact .here (by simpa using hkind) (scopeGives_iff.mpr hgiven)
            | none =>
                rw [hgiven] at hseen
                exact .further (.inr (forall_not_scopeGives_iff.mpr hgiven)) (ih.mpr hseen)
        · next hkind => exact .further (.inl (by simpa using hkind)) (ih.mpr hseen)

theorem sees_iff {imports : Imports} {name type : String} {scopes : List SyntaxTree} :
    Sees imports name scopes type ↔ seenType? imports name scopes = some type := by
  cases scopes with
  | nil => exact ⟨nofun, nofun⟩
  | cons inner outer =>
      rw [seenType?, List.findSome?_cons]
      constructor
      · intro hsees
        cases hsees with
        | inside htype => rw [scopeGives_iff.mp htype]
        | around hnone htype =>
            rw [forall_not_scopeGives_iff.mp hnone]
            exact seesAround_iff.mp htype
      · intro hseen
        cases hgiven : scopeType? imports name inner with
        | some given =>
            rw [hgiven] at hseen
            cases hseen
            exact .inside (scopeGives_iff.mpr hgiven)
        | none =>
            rw [hgiven] at hseen
            exact .around (forall_not_scopeGives_iff.mpr hgiven) (seesAround_iff.mpr hseen)

/-- What `name.method` stands for where the scopes are open. -/
inductive MethodOf (imports : Imports) (name method : String) (scopes : List SyntaxTree) :
    String → Prop where
  | typed {type className : String} (htype : Sees imports name scopes type)
      (hclass : StandsFor imports type className) :
      MethodOf imports name method scopes (className ++ "." ++ method)
  | imported {imported : Imported} (huntyped : ∀ type, ¬ Sees imports name scopes type)
      (himported : imports.get? name = some imported) :
      MethodOf imports name method scopes (imported.symbol ++ "." ++ method)
  | bare (huntyped : ∀ type, ¬ Sees imports name scopes type) (hown : imports.get? name = none) :
      MethodOf imports name method scopes method

theorem methodOf_iff {imports : Imports} {name method target : String}
    {scopes : List SyntaxTree} :
    MethodOf imports name method scopes target ↔
      target = plainTarget imports name method scopes := by
  have huntyped : (∀ type, ¬ Sees imports name scopes type) ↔
      seenType? imports name scopes = none := by
    simp only [sees_iff, Option.eq_none_iff_forall_ne_some, ne_eq]
  unfold plainTarget
  constructor
  · intro hmethod
    cases hmethod with
    | typed htype hclass =>
        rw [sees_iff.mp htype]
        dsimp only
        rw [standsFor_iff.mp hclass]
    | imported hnone himported => rw [huntyped.mp hnone, himported]
    | bare hnone hown => rw [huntyped.mp hnone, hown]
  · rintro rfl
    cases hseen : seenType? imports name scopes with
    | some type => exact .typed (sees_iff.mpr hseen) (standsFor_iff.mpr rfl)
    | none =>
        cases himported : imports.get? name with
        | some imported => exact .imported (huntyped.mpr hseen) himported
        | none => exact .bare (huntyped.mpr hseen) himported

end Names

end CodeGraph
