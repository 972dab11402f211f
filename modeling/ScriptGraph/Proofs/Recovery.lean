import ScriptGraph.Proofs.Description
import ScriptGraph.Proofs.Numeral
import ScriptGraph.Proofs.Quotation

/-!
Descriptions tell values apart. A description opens with a word, maybe an empty one, and the
character behind the word says what follows: a text, a list, the fields of a node or nothing more.
So it is read off from left to right, down to the picture of the value.
-/

namespace ScriptGraph

theorem Kind.label_injective {a b : Kind} (h : a.label = b.label) : a = b := by
  have known (kind : Kind) : ofLabel? kind.label = some kind := by cases kind <;> rfl
  exact Option.some.inj ((known a).symm.trans (h ▸ known b))

/-- What a description consists of, apart from a word. -/
inductive Form
  | word
  | text
  | list
  | node
  deriving DecidableEq

/-- The form that a character shows behind the word of a description. Nothing more follows where
a comma or a closing bracket does. -/
def Form.shown? : Char → Option Form
  | ',' | ']' | ')' => some word
  | '\'' | '"' => some text
  | '[' => some list
  | '(' => some node
  | _ => none

def Value.form : Value → Form
  | .null | .bool _ | .int .. | .real .. => .word
  | .text .. => .text
  | .list _ => .list
  | .node _ => .node

/-- Whether a character can be in a word. -/
def isLetter (c : Char) : Bool :=
  (Form.shown? c).isNone

theorem isLetter_eq_false {c : Char} {form : Form} (h : Form.shown? c = some form) :
    isLetter c = false := by
  rw [isLetter, h]
  rfl

theorem isLetter_of_isNumeralChar {c : Char} (h : isNumeralChar c) : isLetter c := by
  unfold isLetter Form.shown?
  split
  case h_8 => rfl
  all_goals exact absurd h (by decide)

theorem isLetter_of_mem_label {kind : Kind} {c : Char} (h : c ∈ kind.label.toList) :
    isLetter c := by
  have all : kind.label.toList.all isLetter := by cases kind <;> rfl
  exact List.all_eq_true.mp all c h

theorem isWordChar_of_mem_fieldName {shape : Shape} {field : String × Value}
    (h : field ∈ shape.fields) : ∀ c ∈ field.1.toList, isWordChar c := by
  have all : shape.fields.all fun field => field.1.toList.all isWordChar := by
    cases shape <;> simp only [Shape.fields, List.all_cons, List.all_nil] <;> decide
  exact List.all_eq_true.mp (List.all_eq_true.mp all field h)

/-- What is behind a part of a description starts with a comma or a closing bracket. -/
def Closes (X : List Char) : Prop :=
  ∃ c, Form.shown? c = some .word ∧ X.head? = some c

namespace Store
variable {s s' : Store} {v v' : Value} {X Y : List Char}

/-- The word that a description opens with. -/
def word (s : Store) : Value → String
  | .null => "None"
  | .bool b => if b then "True" else "False"
  | .int n _ => n.repr
  | .real x _ => x.text
  | .text .. | .list _ => ""
  | .node id => (s.node id).kind.label

theorem isLetter_of_mem_word {c : Char} (h : c ∈ (s.word v).toList) : isLetter c := by
  cases v with
  | null =>
      have all : "None".toList.all isLetter := by decide
      exact List.all_eq_true.mp all c h
  | bool b =>
      have all : (if b then "True" else "False").toList.all isLetter := by cases b <;> decide
      exact List.all_eq_true.mp all c h
  | int n _ => exact isLetter_of_isNumeralChar (isNumeral_int n c h)
  | real x _ => exact isLetter_of_isNumeralChar (x.isNumeral_text c h)
  | node id => exact isLetter_of_mem_label h
  | text _ _ | list _ => cases h

theorem word_eq_empty_iff : s.word v = "" ↔ v.form = .text ∨ v.form = .list := by
  cases v with
  | null | text _ _ | list _ => simp [word, Value.form]
  | bool b => cases b <;> simp [word, Value.form]
  | int n _ => simpa [word, Value.form] using repr_ne_empty n
  | real x _ => simpa [word, Value.form] using x.text_ne_empty
  | node id =>
      simp only [word, Value.form]
      cases (s.node id).kind <;> simp [Kind.label]

theorem toList_describeBy_list (f : Value → String) (id : ListId) :
    (s.describeBy f (.list id)).toList =
      '[' :: ([',', ' '].intercalate ((s.items id).map fun u => (f u).toList) ++ [']']) := by
  simp [describeBy, Function.comp_def]

theorem toList_describeBy_node (f : Value → String) (id : NodeId) :
    (s.describeBy f (.node id)).toList = (s.node id).kind.label.toList ++
      '(' :: ([',', ' '].intercalate ((s.shape id).fields.map fun field =>
        field.1.toList ++ '=' :: (f field.2).toList) ++ [')']) := by
  simp [describeBy, Function.comp_def]

/-- A description is its word, and then a text, a list or fields, or nothing more. -/
theorem exists_describeBy_eq (f : Value → String) (v : Value) :
    ∃ tail, (s.describeBy f v).toList = (s.word v).toList ++ tail ∧
      (v.form = .word ∧ tail = [] ∨
        ∃ c cs, Form.shown? c = some v.form ∧ v.form ≠ .word ∧ tail = c :: cs) := by
  cases v with
  | null | bool _ | int _ _ | real _ _ =>
      exact ⟨[], (List.append_nil _).symm, .inl ⟨rfl, rfl⟩⟩
  | text t _ =>
      have mark : Form.shown? (Quoted.mark t.toList) = some .text := by
        rcases Quoted.mark_eq t.toList with mark | mark <;> rw [mark] <;> rfl
      exact ⟨Quoted.encode t.toList, String.toList_ofList, .inr ⟨_, _, mark, nofun, rfl⟩⟩
  | list id => exact ⟨_, toList_describeBy_list f id, .inr ⟨'[', _, rfl, nofun, rfl⟩⟩
  | node id => exact ⟨_, toList_describeBy_node f id, .inr ⟨'(', _, rfl, nofun, rfl⟩⟩

/-- No part of a description starts with what is behind a part. -/
theorem head?_describeBy_append (f : Value → String) (v : Value) {c : Char}
    (hc : Form.shown? c = some .word) (X : List Char) :
    ((s.describeBy f v).toList ++ X).head? ≠ some c := by
  obtain ⟨tail, eq, shown⟩ := s.exists_describeBy_eq f v
  rw [eq]
  cases opening : (s.word v).toList with
  | cons d ds =>
      have letter : isLetter d := isLetter_of_mem_word (s := s) (v := v) (by simp [opening])
      rintro ⟨⟩
      rw [isLetter_eq_false hc] at letter
      cases letter
  | nil =>
      have form := word_eq_empty_iff.mp (String.toList_eq_nil_iff.mp opening)
      rcases shown with ⟨word, -⟩ | ⟨d, ds, hd, other, rfl⟩
      · simp [word] at form
      · rintro ⟨⟩
        exact other (Option.some.inj (hd.symm.trans hc))

/-- The form and the word of a description are seen. -/
theorem form_eq_and_word_eq {f g : Value → String} (hX : Closes X) (hY : Closes Y)
    (h : (s.describeBy f v).toList ++ X = (s'.describeBy g v').toList ++ Y) :
    v.form = v'.form ∧ s.word v = s'.word v' := by
  have shows {s : Store} {v : Value} (f : Value → String) {X : List Char} (hX : Closes X) :
      ∃ c cs, Form.shown? c = some v.form ∧
        (s.describeBy f v).toList ++ X = (s.word v).toList ++ c :: cs := by
    obtain ⟨tail, eq, ⟨word, rfl⟩ | ⟨c, cs, hc, -, rfl⟩⟩ := s.exists_describeBy_eq f v
    · obtain ⟨c, hc, head⟩ := hX
      obtain ⟨cs, rfl⟩ := List.head?_eq_some_iff.mp head
      exact ⟨c, cs, word ▸ hc, by rw [eq, List.append_nil]⟩
    · exact ⟨c, cs ++ X, hc, by rw [eq, List.append_assoc, List.cons_append]⟩
  obtain ⟨c, cs, hc, eq⟩ := shows f hX
  obtain ⟨d, ds, hd, eq'⟩ := shows g hY
  rw [eq, eq'] at h
  obtain ⟨same, rest⟩ := word_append_inj (fun _ => isLetter_of_mem_word)
    (fun _ => isLetter_of_mem_word) (by simpa using isLetter_eq_false hc)
    (by simpa using isLetter_eq_false hd) h
  obtain ⟨rfl, -⟩ := List.cons.inj rest
  exact ⟨Option.some.inj (hc.symm.trans hd), String.toList_inj.mp same⟩

/-- Different binary numbers below the two values have different texts. -/
def RealsApart (s s' : Store) (v v' : Value) : Prop :=
  ∀ x y origin origin', s.Reachable [v] (.real x origin) → s'.Reachable [v'] (.real y origin') →
    x.text = y.text → x = y

theorem RealsApart.of_mem_described {u u' : Value} (h : RealsApart s s' v v')
    (hu : u ∈ s.described v) (hu' : u' ∈ s'.described v') : RealsApart s s' u u' :=
  fun x y origin origin' reached reached' => h x y origin origin'
    (reachable_of_mem_successors (mem_successors_of_mem_described hu) reached)
    (reachable_of_mem_successors (mem_successors_of_mem_described hu') reached')

/-- Values that are a word are told by it: the constants are no numerals, and integers are told
from binary numbers. -/
theorem picture_eq_of_word_eq (reals : RealsApart s s' v v') (form : v.form = .word)
    (form' : v'.form = .word) (h : s.word v = s'.word v') : s.picture [] v = s'.picture [] v' := by
  have null {text : String} (numeral : IsNumeral text) : "None" ≠ text := by
    rintro rfl
    simp [IsNumeral, isNumeralChar] at numeral
  have bool (b : Bool) {text : String} (numeral : IsNumeral text) :
      (if b then "True" else "False") ≠ text := by
    rintro rfl
    cases b <;> simp [IsNumeral, isNumeralChar] at numeral
  have apart (b : Bool) : (if b then "True" else "False") ≠ "None" := by cases b <;> decide
  cases v with
  | null =>
      cases v' with
      | null => rfl
      | bool b => exact absurd h.symm (apart b)
      | int n _ => exact absurd h (null (isNumeral_int n))
      | real x _ => exact absurd h (null x.isNumeral_text)
      | text _ _ | list _ | node _ => cases form'
  | bool b =>
      cases v' with
      | null => exact absurd h (apart b)
      | bool c =>
          have same : b = c := by
            revert h
            cases b <;> cases c <;> simp [word]
          rw [same]
          rfl
      | int n _ => exact absurd h (bool b (isNumeral_int n))
      | real x _ => exact absurd h (bool b x.isNumeral_text)
      | text _ _ | list _ | node _ => cases form'
  | int n _ =>
      cases v' with
      | null => exact absurd h.symm (null (isNumeral_int n))
      | bool b => exact absurd h.symm (bool b (isNumeral_int n))
      | int m _ => exact congrArg Picture.int (int_eq_of_repr_eq h)
      | real x _ => exact absurd h.symm (x.text_ne_repr n)
      | text _ _ | list _ | node _ => cases form'
  | real x origin =>
      cases v' with
      | null => exact absurd h.symm (null x.isNumeral_text)
      | bool b => exact absurd h.symm (bool b x.isNumeral_text)
      | int n _ => exact absurd h (x.text_ne_repr n)
      | real y origin' =>
          have same := reals x y origin origin' (.root (by simp)) (.root (by simp)) h
          exact congrArg Picture.real same
      | text _ _ | list _ | node _ => cases form'
  | text _ _ | list _ | node _ => cases form

theorem describeBy_eq_word (f : Value → String) (form : v.form = .word) :
    s.describeBy f v = s.word v := by
  cases v with
  | null | bool _ | int _ _ | real _ _ => rfl
  | text _ _ | list _ | node _ => cases form

/-- Descriptions of the two values, with more behind them, show the picture and where they end. -/
def ToldApart (s s' : Store) (v v' : Value) : Prop :=
  ∀ X Y, Closes X → Closes Y → (s.describe v).toList ++ X = (s'.describe v').toList ++ Y →
    s.picture [] v = s'.picture [] v' ∧ X = Y

theorem closes_of_head? {close : Char} (hc : Form.shown? close = some .word)
    (hX : X.head? = some ',' ∨ X.head? = some close) : Closes X :=
  hX.elim (fun head => ⟨',', rfl, head⟩) fun head => ⟨close, hc, head⟩

theorem list_append_inj {id id' : ListId} (acyclic : s.AcyclicBelow (.list id))
    (acyclic' : s'.AcyclicBelow (.list id'))
    (parts : ∀ u ∈ s.items id, ∀ u' ∈ s'.items id', ToldApart s s' u u')
    (h : (s.describe (.list id)).toList ++ X = (s'.describe (.list id')).toList ++ Y) :
    s.picture [] (.list id) = s'.picture [] (.list id') ∧ X = Y := by
  rw [describe_eq_describeBy acyclic, describe_eq_describeBy acyclic'] at h
  simp only [toList_describeBy_list, List.cons_append, List.append_assoc, List.nil_append,
    List.cons.injEq, true_and] at h
  have first {s : Store} {u : Value} (acyclic : s.AcyclicBelow u) (Z : List Char) :
      ((s.describe u).toList ++ Z).head? ≠ some ']' := by
    rw [describe_eq_describeBy acyclic]
    exact head?_describeBy_append _ _ rfl Z
  obtain ⟨same, rest⟩ := series_append_forall₂ (by decide)
    (fun u hu => first (acyclic.of_mem_successors hu))
    (fun u hu => first (acyclic'.of_mem_successors hu))
    (fun u hu u' hu' Z W hZ hW => parts u hu u' hu' Z W (closes_of_head? rfl hZ)
      (closes_of_head? rfl hW)) h
  have items : (s.items id).map (s.picture []) = (s'.items id').map (s'.picture []) := by
    rw [← List.forall₂_eq_eq_eq, List.forall₂_map_left_iff, List.forall₂_map_right_iff]
    exact same
  rw [picture_list acyclic, picture_list acyclic', items]
  exact ⟨rfl, rest⟩

theorem node_append_inj {id id' : NodeId} (acyclic : s.AcyclicBelow (.node id))
    (acyclic' : s'.AcyclicBelow (.node id')) (kind : (s.node id).kind = (s'.node id').kind)
    (parts : ∀ u ∈ (s.shape id).values, ∀ u' ∈ (s'.shape id').values, ToldApart s s' u u')
    (h : (s.describe (.node id)).toList ++ X = (s'.describe (.node id')).toList ++ Y) :
    s.picture [] (.node id) = s'.picture [] (.node id') ∧ X = Y := by
  rw [describe_eq_describeBy acyclic, describe_eq_describeBy acyclic'] at h
  simp only [toList_describeBy_node, kind, List.cons_append, List.append_assoc, List.nil_append,
    List.append_cancel_left_eq, List.cons.injEq, true_and] at h
  have first {shape : Shape} {field : String × Value} (hf : field ∈ shape.fields)
      (cs Z : List Char) : (field.1.toList ++ '=' :: cs ++ Z).head? ≠ some ')' := by
    have letters := isWordChar_of_mem_fieldName hf
    cases name : field.1.toList with
    | nil => simp
    | cons c cs =>
        have letter := letters c (by simp [name])
        rintro ⟨⟩
        exact absurd letter (by decide)
  have one : ∀ field ∈ (s.shape id).fields, ∀ field' ∈ (s'.shape id').fields, ∀ Z W,
      Z.head? = some ',' ∨ Z.head? = some ')' → W.head? = some ',' ∨ W.head? = some ')' →
      field.1.toList ++ '=' :: (s.describe field.2).toList ++ Z =
        field'.1.toList ++ '=' :: (s'.describe field'.2).toList ++ W →
      s.picture [] field.2 = s'.picture [] field'.2 ∧ Z = W := by
    intro field hf field' hf' Z W hZ hW h
    rw [List.append_assoc, List.append_assoc, List.cons_append, List.cons_append] at h
    obtain ⟨-, rest⟩ := word_append_inj (isWordChar_of_mem_fieldName hf)
      (isWordChar_of_mem_fieldName hf') (outside_word rfl _) (outside_word rfl _) h
    exact parts field.2 (List.mem_map_of_mem hf) field'.2 (List.mem_map_of_mem hf') Z W
      (closes_of_head? rfl hZ) (closes_of_head? rfl hW) (List.cons.inj rest).2
  obtain ⟨same, rest⟩ := series_append_forall₂ (by decide) (fun field hf => first hf _)
    (fun field hf => first hf _) one h
  have fields : (s.shape id).values.map (s.picture []) =
      (s'.shape id').values.map (s'.picture []) := by
    simp only [Shape.values, List.map_map]
    rw [← List.forall₂_eq_eq_eq, List.forall₂_map_left_iff, List.forall₂_map_right_iff]
    exact same
  rw [picture_node acyclic, picture_node acyclic', kind, fields]
  exact ⟨rfl, rest⟩

/-- The description of a value without cycles shows its picture, and where it ends. -/
theorem toldApart_of_acyclicBelow (acyclic : s.AcyclicBelow v) (acyclic' : s'.AcyclicBelow v')
    (reals : RealsApart s s' v v') : ToldApart s s' v v' := by
  induction acyclic using AcyclicBelow.induct generalizing v' with
  | step v acyclic ih =>
      have parts : ∀ u ∈ s.described v, ∀ u' ∈ s'.described v', ToldApart s s' u u' := by
        intro u hu u' hu'
        exact ih u (mem_successors_of_mem_described hu)
          (acyclic'.of_mem_successors (mem_successors_of_mem_described hu'))
          (reals.of_mem_described hu hu')
      intro X Y hX hY h
      have same := h
      rw [describe_eq_describeBy acyclic, describe_eq_describeBy acyclic'] at same
      obtain ⟨form, word⟩ := form_eq_and_word_eq hX hY same
      cases v with
      | list id =>
          cases v' with
          | list id' => exact list_append_inj acyclic acyclic' parts h
          | null | bool _ | int _ _ | real _ _ | text _ _ | node _ => cases form
      | node id =>
          cases v' with
          | node id' => exact node_append_inj acyclic acyclic' (Kind.label_injective word) parts h
          | null | bool _ | int _ _ | real _ _ | text _ _ | list _ => cases form
      | text t _ =>
          cases v' with
          | text t' _ =>
              have h : Quoted.encode t.toList ++ X = Quoted.encode t'.toList ++ Y := by
                simpa [describe, describeWithin, quote] using h
              obtain ⟨content, rest⟩ := Quoted.encode_append_inj h
              exact ⟨congrArg Picture.text (String.toList_inj.mp content), rest⟩
          | null | bool _ | int _ _ | real _ _ | list _ | node _ => cases form
      | null | bool _ | int _ _ | real _ _ =>
          rw [describeBy_eq_word _ rfl, describeBy_eq_word _ form.symm, word,
            List.append_cancel_left_eq] at same
          exact ⟨picture_eq_of_word_eq reals rfl form.symm word, same⟩

theorem picture_eq_of_describe_eq (acyclic : s.AcyclicBelow v) (acyclic' : s'.AcyclicBelow v')
    (reals : RealsApart s s' v v') (h : s.describe v = s'.describe v') :
    s.picture [] v = s'.picture [] v' := by
  have closes : Closes [']'] := ⟨']', rfl, rfl⟩
  exact (toldApart_of_acyclicBelow acyclic acyclic' reals _ _ closes closes (by rw [h])).1

/-- Every value has exactly one description, also where there are cycles: it is found in finitely
many steps, and what is met again inside its own description is cut off. Of values without cycles
the description shows the whole picture. -/
theorem describes_and_recovers :
    (∀ (s : Store) (v : Value), s.Known v →
      ∀ text, s.Describes [] v text ↔ text = s.describe v) ∧
    ∀ (s s' : Store) (v v' : Value), s.AcyclicBelow v → s'.AcyclicBelow v' →
      RealsApart s s' v v' → s.describe v = s'.describe v' →
        s.picture [] v = s'.picture [] v' :=
  ⟨fun _ _ known _ => describes_iff known,
    fun _ _ _ _ acyclic acyclic' reals => picture_eq_of_describe_eq acyclic acyclic' reals⟩

/-- A program that is among its own elements, as is the list of them, and a block that holds the
program and itself. -/
def looped : Store :=
  ⟨#[.ofShape (.program (.bool true) (.list ⟨0⟩)), .ofShape (.block (.list ⟨1⟩))],
    #[[.node ⟨0⟩, .list ⟨0⟩, .node ⟨1⟩], [.node ⟨0⟩, .node ⟨1⟩]]⟩

def half : Binary64 :=
  ⟨4602678819172646912⟩

/-- A list with one literal in two places, a binary number and a text in quotes. -/
def quoting : Store :=
  ⟨#[.ofShape (.boolean (.bool true))],
    #[[.node ⟨0⟩, .node ⟨0⟩, .real half, .text "it's \"so\", EmptyStatement()\n"]]⟩

/-- The same with two literals. -/
def requoting : Store :=
  ⟨#[.ofShape (.boolean (.bool true)), .ofShape (.boolean (.bool true))],
    #[[], [.node ⟨1⟩, .node ⟨0⟩, .real half (.own 7), .text "it's \"so\", EmptyStatement()\n"]]⟩

theorem looped_describes_and_quoting_recovers :
    looped.Describes [] (.node ⟨0⟩)
        "Module(use_strict=True, elements=[..., [...], BlockStatement(statements=[..., ...])])" ∧
      quoting.describe (.list ⟨0⟩) = requoting.describe (.list ⟨1⟩) ∧
      quoting.picture [] (.list ⟨0⟩) = requoting.picture [] (.list ⟨1⟩) := by
  obtain ⟨ends, recovers⟩ := describes_and_recovers
  have same : quoting.describe (.list ⟨0⟩) = requoting.describe (.list ⟨1⟩) := rfl
  refine ⟨(ends looped _ ?_ _).mpr rfl, same, recovers _ _ _ _ ?_ ?_ ?_ same⟩
  · intro id reached
    have mem : Value.node id ∈ [.node ⟨0⟩, .node ⟨1⟩, .list ⟨0⟩, .list ⟨1⟩, .bool true] :=
      mem_of_reachable (by simp) (by decide) reached
    simp only [List.mem_cons, Value.node.injEq, List.not_mem_nil, reduceCtorEq, or_false] at mem
    rcases mem with rfl | rfl <;> decide
  · exact acyclicBelow_of_rank rank (by decide) _
  · exact acyclicBelow_of_rank rank (by decide) _
  · intro x y origin origin' reached reached' _
    have mem : Value.real x origin ∈ .list ⟨0⟩ :: .bool true :: quoting.items ⟨0⟩ :=
      mem_of_reachable (by simp) (by decide) reached
    have mem' : Value.real y origin' ∈ .list ⟨1⟩ :: .bool true :: requoting.items ⟨1⟩ :=
      mem_of_reachable (by simp) (by decide) reached'
    have only : x = half ∧ origin = .common := by simpa [quoting, items] using mem
    have only' : y = half ∧ origin' = .own 7 := by simpa [requoting, items] using mem'
    rw [only.1, only'.1]

end Store
end ScriptGraph
