import ScriptGraph.Proofs.Grammar

/-!
A text is written by one tree only. A tree in front of a text is told from every other
tree of its role in front of every other text, as long as what follows cannot be taken
for a part of it; so it is read off from left to right, whatever the width is.
-/

namespace ScriptGraph

theorem outside_word {c : Char} (h : isWordChar c = false) (X : List Char) :
    ∀ d ∈ (c :: X).head?, isWordChar d = false := by
  simpa using h

/-- A word over any set of characters ends where no word goes on. -/
theorem word_append_inj {p : Char → Bool} {a b X Y : List Char} (ha : ∀ c ∈ a, p c)
    (hb : ∀ c ∈ b, p c) (hX : ∀ c ∈ X.head?, p c = false) (hY : ∀ c ∈ Y.head?, p c = false)
    (h : a ++ X = b ++ Y) : a = b ∧ X = Y := by
  induction a generalizing b with
  | nil =>
      cases b with
      | nil => exact ⟨rfl, h⟩
      | cons c b =>
          rw [List.nil_append] at h
          have outside := hX c (by simp [h])
          rw [hb c (by simp)] at outside
          cases outside
  | cons c a ih =>
      cases b with
      | nil =>
          rw [List.nil_append] at h
          have outside := hY c (by simp [← h])
          rw [ha c (by simp)] at outside
          cases outside
      | cons e b =>
          rw [List.cons_append, List.cons_append, List.cons.injEq] at h
          obtain ⟨rfl, h⟩ := h
          obtain ⟨rfl, rest⟩ := ih (fun c hc => ha c (by simp [hc]))
            (fun c hc => hb c (by simp [hc])) h
          exact ⟨rfl, rest⟩

/-- Two sequences of parts are read off part by part, where the beginning of a part (`p`) is told
from what is behind the last one (`q`), and parts that begin alike are related. -/
theorem flatMap_append_forall₂ {α β : Type} {f : α → List Char} {g : β → List Char}
    {R : α → β → Prop} {p q : List Char → Prop} (apart : ∀ Z, p Z → ¬ q Z) {as : List α}
    {bs : List β} (has : ∀ a ∈ as, ∀ Z, p (f a ++ Z)) (hbs : ∀ b ∈ bs, ∀ Z, p (g b ++ Z))
    (one : ∀ a ∈ as, ∀ b ∈ bs, ∀ Z W, p Z ∨ q Z → p W ∨ q W →
      f a ++ Z = g b ++ W → R a b ∧ Z = W)
    {X Y : List Char} (hX : q X) (hY : q Y) (h : as.flatMap f ++ X = bs.flatMap g ++ Y) :
    List.Forall₂ R as bs ∧ X = Y := by
  have next {γ : Type} (k : γ → List Char) (cs : List γ) (hcs : ∀ c ∈ cs, ∀ Z, p (k c ++ Z))
      {Z : List Char} (hZ : q Z) : p (cs.flatMap k ++ Z) ∨ q (cs.flatMap k ++ Z) := by
    cases cs with
    | nil => exact .inr hZ
    | cons c cs =>
        rw [List.flatMap_cons, List.append_assoc]
        exact .inl (hcs c (by simp) _)
  induction as generalizing bs with
  | nil =>
      cases bs with
      | nil => exact ⟨.nil, h⟩
      | cons b bs =>
          rw [List.flatMap_nil, List.nil_append, List.flatMap_cons, List.append_assoc] at h
          exact absurd hX (apart X (h ▸ hbs b (by simp) _))
  | cons a as ih =>
      cases bs with
      | nil =>
          rw [List.flatMap_nil, List.nil_append, List.flatMap_cons, List.append_assoc] at h
          exact absurd hY (apart Y (h ▸ has a (by simp) _))
      | cons b bs =>
          rw [List.flatMap_cons, List.flatMap_cons, List.append_assoc, List.append_assoc] at h
          have restA : ∀ c ∈ as, ∀ Z, p (f c ++ Z) := fun c hc => has c (by simp [hc])
          have restB : ∀ c ∈ bs, ∀ Z, p (g c ++ Z) := fun c hc => hbs c (by simp [hc])
          obtain ⟨first, rest⟩ := one a (by simp) b (by simp) _ _ (next f as restA hX)
            (next g bs restB hY) h
          obtain ⟨others, same⟩ := ih restA restB
            (fun c hc e he => one c (by simp [hc]) e (by simp [he])) rest
          exact ⟨.cons first others, same⟩

/-- A sequence of parts is read off part by part. -/
theorem flatMap_append_inj {α : Type} {f : α → List Char} {p q : List Char → Prop}
    (apart : ∀ Z, p Z → ¬ q Z) {as bs : List α}
    (has : ∀ a ∈ as, ∀ Z, p (f a ++ Z)) (hbs : ∀ b ∈ bs, ∀ Z, p (f b ++ Z))
    (one : ∀ a ∈ as, ∀ b ∈ bs, ∀ Z W, p Z ∨ q Z → p W ∨ q W →
      f a ++ Z = f b ++ W → a = b ∧ Z = W)
    {X Y : List Char} (hX : q X) (hY : q Y) (h : as.flatMap f ++ X = bs.flatMap f ++ Y) :
    as = bs ∧ X = Y := by
  obtain ⟨same, rest⟩ := flatMap_append_forall₂ apart has hbs one hX hY h
  exact ⟨List.forall₂_eq_eq_eq ▸ same, rest⟩

/-- The first character of the next line that is not a space, right behind a line. -/
def lineHead : List Char → Option Char
  | '\n' :: cs => (cs.dropWhile (· = ' ')).head?
  | _ => none

theorem lineHead_newline (width depth : Nat) {cs : List Char} (h : cs.head? ≠ some ' ') :
    lineHead (newline width depth ++ cs) = cs.head? := by
  have spaces (n : Nat) : (List.replicate n ' ' ++ cs).dropWhile (· = ' ') = cs := by
    induction n with
    | zero =>
        cases cs with
        | nil => rfl
        | cons c cs =>
            have other : c ≠ ' ' := by simpa using h
            simp [other]
    | succ n ih => simpa [List.replicate_succ] using ih
  rw [newline, List.cons_append, lineHead, spaces]

theorem head?_of_lineHead {cs : List Char} {c : Char} (h : lineHead cs = some c) :
    cs.head? = some '\n' := by
  unfold lineHead at h
  split at h
  · rfl
  · cases h

/-- Parts with commas between them and a closing bracket behind the last one are read off part
by part, where no part begins with that bracket. -/
theorem series_append_forall₂ {α β : Type} {f : α → List Char} {g : β → List Char}
    {R : α → β → Prop} {close : Char} (other : close ≠ ',') {as : List α} {bs : List β}
    (has : ∀ a ∈ as, ∀ Z, (f a ++ Z).head? ≠ some close)
    (hbs : ∀ b ∈ bs, ∀ Z, (g b ++ Z).head? ≠ some close)
    (one : ∀ a ∈ as, ∀ b ∈ bs, ∀ Z W, Z.head? = some ',' ∨ Z.head? = some close →
      W.head? = some ',' ∨ W.head? = some close → f a ++ Z = g b ++ W → R a b ∧ Z = W)
    {X Y : List Char} (h : [',', ' '].intercalate (as.map f) ++ close :: X =
      [',', ' '].intercalate (bs.map g) ++ close :: Y) : List.Forall₂ R as bs ∧ X = Y := by
  have first {γ : Type} {k : γ → List Char} {c : γ} (cs : List γ)
      (hc : ∀ Z, (k c ++ Z).head? ≠ some close) (Z W : List Char) :
      [',', ' '].intercalate ((c :: cs).map k) ++ Z ≠ close :: W := by
    intro h
    rw [List.map_cons, intercalate_cons_eq_flatMap, List.append_assoc] at h
    exact hc _ (congrArg List.head? h)
  cases as with
  | nil =>
      cases bs with
      | nil => exact ⟨.nil, by simpa using h⟩
      | cons b bs => exact absurd h.symm (first bs (hbs b (by simp)) _ _)
  | cons a as =>
      cases bs with
      | nil => exact absurd h (first as (has a (by simp)) _ _)
      | cons b bs =>
          -- With one more comma in front, all the parts are alike.
          have even {γ : Type} (k : γ → List Char) (c : γ) (cs : List γ) :
              [',', ' '] ++ [',', ' '].intercalate ((c :: cs).map k) =
                (c :: cs).flatMap fun c => [',', ' '] ++ k c := by
            rw [List.map_cons, intercalate_cons_eq_flatMap, List.flatMap_cons, List.flatMap_map,
              List.append_assoc]
          have h := congrArg ([',', ' '] ++ ·) h
          simp only [← List.append_assoc, even] at h
          have apart (Z : List Char) (hZ : Z.head? = some ',') : Z.head? ≠ some close := by
            simpa [hZ] using other.symm
          obtain ⟨same, rest⟩ := flatMap_append_forall₂ apart (by simp) (by simp)
            (fun a ha b hb Z W hZ hW h => one a ha b hb Z W hZ hW (by simpa using h)) rfl rfl h
          exact ⟨same, (List.cons.inj rest).2⟩

theorem params_append_inj {ps qs : List String} (hps : ∀ p ∈ ps, isIdentifier p)
    (hqs : ∀ q ∈ qs, isIdentifier q) {X Y : List Char}
    (h : [',', ' '].intercalate (ps.map String.toList) ++ ')' :: X =
      [',', ' '].intercalate (qs.map String.toList) ++ ')' :: Y) : ps = qs ∧ X = Y := by
  have word {p : String} (hp : isIdentifier p) : ∀ c ∈ p.toList, isWordChar c :=
    (isIdentifier_iff.mp hp).1.1.2
  have first {p : String} (hp : isIdentifier p) (Z : List Char) :
      (p.toList ++ Z).head? ≠ some ')' := by
    obtain ⟨c, cs, hc, inside⟩ := exists_cons_of_isIdentifier hp
    rw [hc, List.cons_append, List.head?_cons]
    rintro ⟨⟩
    exact absurd inside (by decide)
  have one : ∀ a ∈ ps, ∀ b ∈ qs, ∀ Z W, Z.head? = some ',' ∨ Z.head? = some ')' →
      W.head? = some ',' ∨ W.head? = some ')' → a.toList ++ Z = b.toList ++ W → a = b ∧ Z = W := by
    intro a ha b hb Z W hZ hW h
    have outside {Z : List Char} (hZ : Z.head? = some ',' ∨ Z.head? = some ')') :
        ∀ c ∈ Z.head?, isWordChar c = false := by
      rcases hZ with hZ | hZ <;> simp [hZ] <;> decide
    obtain ⟨same, rest⟩ := word_append_inj (word (hps a ha)) (word (hqs b hb)) (outside hZ)
      (outside hW) h
    exact ⟨String.toList_inj.mp same, rest⟩
  obtain ⟨same, rest⟩ := series_append_forall₂ (by decide) (fun p hp => first (hps p hp))
    (fun q hq => first (hqs q hq)) one h
  exact ⟨List.forall₂_eq_eq_eq ▸ same, rest⟩

namespace Tree

/-- The character that a tree starts with, if its role settles that. -/
def lead : Tree → Char
  | empty => ';'
  | boolean value => if value then 't' else 'f'
  | block _ => '\x7b'
  | conditional .. => 'i'
  | caseGroup labels _ => if labels.isEmpty then 'd' else 'c'
  | switch .. => 's'
  | declaration _ => 'v'
  | function .. => 'f'
  | bare | program .. | declarator .. => ' '

/-- What may stand behind a tree. A statement that is open must not be followed by the beginning
of an alternative, nor a name by a character that could belong to it. -/
def Follow (role : Role) (t : Tree) (rest : List Char) : Prop :=
  match role with
  | .expression => True
  | .statement => t.isOpen → rest.head? ≠ some 'e'
  | .group => rest = [] ∨ lineHead rest ∈ [some 'c', some 'd', some '\x7d']
  | .declarator => rest.head? ∈ [none, some ',', some ';']
  | .program => rest = []

variable (width : Nat) (directive : String)

/-- The tree is told from all others of its role, and so is the text behind it. -/
def Separates (role : Role) (t : Tree) : Prop :=
  ∀ depth u X Y, Fits role u → Follow role t X → Follow role u Y →
    t.write width directive depth ++ X = u.write width directive depth ++ Y → t = u ∧ X = Y

variable {width directive} {depth : Nat} {X Y : List Char}

theorem write_eq_lead_cons {role : Role} {t : Tree} (h : Fits role t)
    (hrole : role = .expression ∨ role = .statement ∨ role = .group) :
    ∃ cs, t.write width directive depth = t.lead :: cs := by
  cases h with
  | boolean value =>
      cases value <;> exact ⟨_, rfl⟩
  | function _ hname hparams hbody => exact ⟨_, write_function _ _ _ _ hname hparams⟩
  | empty => exact ⟨_, rfl⟩
  | @block ts h =>
      cases ts with
      | none => exact ⟨_, rfl⟩
      | some ts => exact ⟨_, write_block ..⟩
  | conditional ht hu closed hx => exact ⟨_, write_conditional ..⟩
  | switch ht hts => exact ⟨_, write_switch ..⟩
  | @caseGroup labels ts names nodes hts =>
      rw [write_caseGroup _ _ _ names]
      cases labels with
      | nil => exact ⟨_, rfl⟩
      | cons label labels => cases label <;> exact ⟨_, rfl⟩
  | @declaration ts h =>
      cases ts with
      | nil => exact ⟨_, rfl⟩
      | cons t ts => exact ⟨_, write_declaration_cons ..⟩
  | declarator _ _ | program _ _ => simp at hrole

theorem head?_write_append {role : Role} {t : Tree} (h : Fits role t)
    (hrole : role = .expression ∨ role = .statement ∨ role = .group) (X : List Char) :
    (t.write width directive depth ++ X).head? = some t.lead := by
  obtain ⟨cs, hcs⟩ : ∃ cs, t.write width directive depth = t.lead :: cs :=
    write_eq_lead_cons h hrole
  rw [hcs]
  rfl

theorem lead_mem_of_statement {t : Tree} (h : Fits .statement t) :
    t.lead ∈ [';', '\x7b', 'i', 's', 'v', 'f'] := by
  cases h <;> simp [lead]

theorem lead_mem_of_group {t : Tree} (h : Fits .group t) : t.lead ∈ ['c', 'd'] := by
  cases h with
  | function hrole => simp at hrole
  | caseGroup =>
      simp only [lead]
      split <;> simp

theorem lead_eq_of_append_eq {role : Role} {t u : Tree} (ht : Fits role t) (hu : Fits role u)
    (hrole : role = .expression ∨ role = .statement ∨ role = .group)
    (h : t.write width directive depth ++ X = u.write width directive depth ++ Y) :
    t.lead = u.lead := by
  have heads := congrArg List.head? h
  rw [head?_write_append ht hrole, head?_write_append hu hrole] at heads
  exact Option.some.inj heads

/-- No name can be taken for an expression. -/
theorem name_append_ne_expression {name : String} {t : Tree} (hname : isIdentifier name)
    (ht : Fits .expression t) :
    name.toList ++ ':' :: X ≠ t.write width directive depth ++ ':' :: Y := by
  obtain ⟨⟨⟨-, word⟩, -⟩, reserved⟩ := isIdentifier_iff.mp hname
  intro h
  cases ht with
  | boolean value =>
      rw [write_boolean] at h
      have keyword : (if value then "true" else "false") ∈ keywords := by
        cases value <;> simp [keywords]
      obtain ⟨same, -⟩ := word_append_inj word (isWordChar_of_mem_keyword keyword)
        (outside_word rfl X) (outside_word rfl Y) h
      exact reserved (String.toList_inj.mp same ▸ keyword)
  | function _ hn hp _ =>
      rw [write_function _ _ _ _ hn hp] at h
      have split : "function ".toList = "function".toList ++ [' '] := rfl
      simp only [split, List.append_assoc] at h
      have keyword : "function" ∈ keywords := by simp [keywords]
      obtain ⟨same, -⟩ := word_append_inj word (isWordChar_of_mem_keyword keyword)
        (outside_word rfl X) (outside_word rfl _) h
      exact reserved (String.toList_inj.mp same ▸ keyword)

theorem label_append_inj {label other : String ⊕ Tree}
    (hname : ∀ name, label = .inl name → isIdentifier name)
    (ht : ∀ t, label = .inr t → Fits .expression t ∧ Separates width directive .expression t)
    (hname' : ∀ name, other = .inl name → isIdentifier name)
    (ht' : ∀ t, other = .inr t → Fits .expression t)
    (h : writeLabel width directive depth label ++ X =
      writeLabel width directive depth other ++ Y) :
    label = other ∧ X = Y := by
  cases label with
  | inl name =>
      cases other with
      | inl other =>
          simp only [writeLabel_inl, List.append_assoc, List.append_cancel_left_eq,
            List.singleton_append] at h
          obtain ⟨same, rest⟩ := word_append_inj (isIdentifier_iff.mp (hname _ rfl)).1.1.2
            (isIdentifier_iff.mp (hname' _ rfl)).1.1.2 (outside_word rfl X) (outside_word rfl Y) h
          exact ⟨by rw [String.toList_inj.mp same], (List.cons.inj rest).2⟩
      | inr u =>
          simp only [writeLabel_inl, writeLabel_inr, List.append_assoc,
            List.append_cancel_left_eq, List.singleton_append] at h
          exact absurd h (name_append_ne_expression (hname _ rfl) (ht' _ rfl))
  | inr t =>
      cases other with
      | inl other =>
          simp only [writeLabel_inl, writeLabel_inr, List.append_assoc,
            List.append_cancel_left_eq, List.singleton_append] at h
          exact absurd h.symm (name_append_ne_expression (hname' _ rfl) (ht _ rfl).1)
      | inr u =>
          simp only [writeLabel_inr, List.append_assoc, List.append_cancel_left_eq,
            List.singleton_append] at h
          obtain ⟨rfl, rest⟩ := (ht _ rfl).2 depth u _ _ (ht' _ rfl) trivial trivial h
          exact ⟨rfl, (List.cons.inj rest).2⟩

theorem lineHead_write {role : Role} {t : Tree} (h : Fits role t)
    (hrole : role = .statement ∨ role = .group) (Z : List Char) :
    lineHead (newline width depth ++ t.write width directive depth ++ Z) = some t.lead := by
  have start : (t.write width directive depth ++ Z).head? = some t.lead :=
    head?_write_append h (.inr hrole) Z
  have visible : t.lead ≠ ' ' := by
    intro e
    rcases hrole with rfl | rfl
    · exact absurd (e ▸ lead_mem_of_statement h) (by decide)
    · exact absurd (e ▸ lead_mem_of_group h) (by decide)
  rw [List.append_assoc, lineHead_newline, start]
  simpa [start] using visible

/-- Trees on lines of their own, up to a text that starts like none of them. -/
theorem lines_append_inj {role : Role} (hrole : role = .statement ∨ role = .group)
    {q : List Char → Prop} (apart : ∀ u Z, Fits role u → lineHead Z = some u.lead → ¬ q Z)
    (follow : ∀ t Z, (∃ u, Fits role u ∧ lineHead Z = some u.lead) ∨ q Z → Follow role t Z)
    {ts us : List Tree} (hts : ∀ t ∈ ts, Fits role t ∧ Separates width directive role t)
    (hus : ∀ u ∈ us, Fits role u) (hX : q X) (hY : q Y)
    (h : (ts.flatMap fun t => newline width depth ++ t.write width directive depth) ++ X =
      (us.flatMap fun u => newline width depth ++ u.write width directive depth) ++ Y) :
    ts = us ∧ X = Y := by
  refine flatMap_append_inj (p := fun Z => ∃ u, Fits role u ∧ lineHead Z = some u.lead) ?_ ?_ ?_
    ?_ hX hY h
  · rintro Z ⟨u, hu, hZ⟩
    exact apart u Z hu hZ
  · intro t ht Z
    exact ⟨t, (hts t ht).1, lineHead_write (hts t ht).1 hrole Z⟩
  · intro u hu Z
    exact ⟨u, hus u hu, lineHead_write (hus u hu) hrole Z⟩
  · intro t ht u hu Z W hZ hW h
    rw [List.append_assoc, List.append_assoc, List.append_cancel_left_eq] at h
    exact (hts t ht).2 depth u Z W (hus u hu) (follow t Z hZ) (follow u W hW) h

theorem braces_append_inj {role : Role} (hrole : role = .statement ∨ role = .group)
    {ts us : Option (List Tree)}
    (hts : ∀ list ∈ ts, ∀ t ∈ list, Fits role t ∧ Separates width directive role t)
    (hus : ∀ list ∈ us, ∀ u ∈ list, Fits role u)
    (h : (block ts).write width directive depth ++ X =
      (block us).write width directive depth ++ Y) : ts = us ∧ X = Y := by
  cases ts with
  | none =>
      cases us with
      | none => simpa [write_absentBlock] using h
      | some us =>
          rw [write_absentBlock, write_block] at h
          cases us <;> simp [newline] at h
  | some ts =>
      cases us with
      | none =>
          rw [write_absentBlock, write_block] at h
          cases ts <;> simp [newline] at h
      | some us =>
          simp only [write_block, List.append_assoc, List.cons_append, List.cons.injEq,
            true_and] at h
          have closing (Z : List Char) :
              lineHead (newline width depth ++ ([] ++ '\x7d' :: Z)) = some '\x7d' :=
            lineHead_newline width depth (by simp)
          have apart : ∀ u Z, Fits role u → lineHead Z = some u.lead →
              ¬ lineHead Z = some '\x7d' := by
            intro u Z hu hZ e
            have lead : u.lead = '\x7d' := Option.some.inj (hZ.symm.trans e)
            rcases hrole with rfl | rfl
            · exact absurd (lead ▸ lead_mem_of_statement hu) (by decide)
            · exact absurd (lead ▸ lead_mem_of_group hu) (by decide)
          have follow : ∀ t Z, (∃ u, Fits role u ∧ lineHead Z = some u.lead) ∨
              lineHead Z = some '\x7d' → Follow role t Z := by
            intro t Z hZ
            rcases hrole with rfl | rfl
            · have start : Z.head? = some '\n' := by
                rcases hZ with ⟨u, -, hZ⟩ | hZ <;> exact head?_of_lineHead hZ
              simp [Follow, start]
            · refine .inr ?_
              rcases hZ with ⟨u, hu, hZ⟩ | hZ
              · have lead := lead_mem_of_group hu
                simp only [List.mem_cons, List.not_mem_nil, or_false] at lead
                rcases lead with lead | lead <;> simp [hZ, lead]
              · simp [hZ]
          obtain ⟨rfl, rest⟩ := lines_append_inj hrole apart follow (hts _ rfl) (hus _ rfl)
            (closing X) (closing Y) (by simpa using h)
          simpa using rest

/-- Behind a group stands nothing or a line end. -/
theorem head?_of_follow_group {t : Tree} (h : Follow .group t X) :
    X = [] ∨ X.head? = some '\n' := by
  rcases h with rfl | h
  · exact .inl rfl
  · simp only [List.mem_cons, List.not_mem_nil, or_false] at h
    rcases h with h | h | h <;> exact .inr (head?_of_lineHead h)

theorem lineHead_writeTail_nil {t : Tree} (h : Follow .group t X) :
    lineHead (writeTail width directive depth [] ++ X) ∈ [none, some '\n'] := by
  rw [writeTail]
  rcases head?_of_follow_group h with rfl | start
  · rw [lineHead_newline] <;> simp
  · rw [lineHead_newline] <;> simp [start]

theorem lineHead_writeTail_cons {u : Tree} {ts : List Tree} (hu : Fits .statement u) :
    lineHead (writeTail width directive depth (u :: ts) ++ X) = some u.lead := by
  rw [writeTail, List.flatMap_cons, List.append_assoc]
  exact lineHead_write hu (.inl rfl) _

theorem tail_append_inj {t t' : Tree} {ts us : List Tree}
    (hts : ∀ t ∈ ts, Fits .statement t ∧ Separates width directive .statement t)
    (hus : ∀ u ∈ us, Fits .statement u) (hX : Follow .group t X) (hY : Follow .group t' Y)
    (h : writeTail width directive depth ts ++ X = writeTail width directive depth us ++ Y) :
    ts = us ∧ X = Y := by
  have mixed {t v : Tree} {vs : List Tree} {X Y : List Char} (hv : Fits .statement v)
      (hX : Follow .group t X) :
      writeTail width directive depth [] ++ X ≠ writeTail width directive depth (v :: vs) ++ Y := by
    intro h
    have empty : lineHead (writeTail width directive depth [] ++ X) ∈ [none, some '\n'] :=
      lineHead_writeTail_nil hX
    rw [h, lineHead_writeTail_cons hv] at empty
    have lead := lead_mem_of_statement hv
    have none : v.lead = '\n' := by simpa using empty
    exact absurd (none ▸ lead) (by decide)
  cases ts with
  | nil =>
      cases us with
      | nil => exact ⟨rfl, List.append_cancel_left h⟩
      | cons u us => exact absurd h (mixed (hus u (by simp)) hX)
  | cons t ts =>
      cases us with
      | nil => exact absurd h.symm (mixed (hts t (by simp)).1 hY)
      | cons u us =>
          refine lines_append_inj (.inl rfl) (q := fun Z => Follow .group bare Z) ?_ ?_ hts hus
            hX hY h
          · intro v Z hv hZ follow
            have lead := lead_mem_of_statement hv
            rcases follow with rfl | follow
            · cases hZ
            · rw [hZ] at follow
              simp only [List.mem_cons, List.not_mem_nil, or_false, Option.some.injEq] at follow
              rcases follow with e | e | e <;> exact absurd (e ▸ lead) (by decide)
          · intro v Z hZ _
            rcases hZ with ⟨w, -, hZ⟩ | hZ
            · simp [head?_of_lineHead hZ]
            · rcases head?_of_follow_group hZ with rfl | start
              · simp
              · simp [start]

theorem heads_append_inj {labels others : List (String ⊕ Tree)}
    (names : ∀ name, .inl name ∈ labels → isIdentifier name)
    (nodes : ∀ t, .inr t ∈ labels → Fits .expression t ∧ Separates width directive .expression t)
    (names' : ∀ name, .inl name ∈ others → isIdentifier name)
    (nodes' : ∀ t, .inr t ∈ others → Fits .expression t)
    (hX : lineHead X ≠ some 'c') (hY : lineHead Y ≠ some 'c')
    (h : writeHeads width directive depth labels ++ X =
      writeHeads width directive depth others ++ Y) : labels = others ∧ X = Y := by
  have one : ∀ label ∈ labels, ∀ other ∈ others, ∀ Z W,
      writeLabel width directive depth label ++ Z = writeLabel width directive depth other ++ W →
        label = other ∧ Z = W := by
    intro label hl other ho Z W h
    exact label_append_inj (fun name e => names name (e ▸ hl)) (fun t e => nodes t (e ▸ hl))
      (fun name e => names' name (e ▸ ho)) (fun t e => nodes' t (e ▸ ho)) h
  have start (label : String ⊕ Tree) :
      (writeLabel width directive depth label).head? = some 'c' := by
    cases label <;> rfl
  cases labels with
  | nil =>
      cases others with
      | nil => exact ⟨rfl, List.append_cancel_left h⟩
      | cons other others =>
          have heads := congrArg List.head? h
          simp [writeHeads_nil, writeHeads_cons, start] at heads
  | cons label labels =>
      cases others with
      | nil =>
          have heads := congrArg List.head? h
          simp [writeHeads_nil, writeHeads_cons, start] at heads
      | cons other others =>
          rw [writeHeads_cons, writeHeads_cons, List.append_assoc, List.append_assoc] at h
          obtain ⟨rfl, rest⟩ := one label (by simp) other (by simp) _ _ h
          have next (label : String ⊕ Tree) (Z : List Char) :
              lineHead (newline width depth ++ writeLabel width directive depth label ++ Z) =
                some 'c' := by
            rw [List.append_assoc, lineHead_newline] <;> simp [start]
          obtain ⟨rfl, same⟩ := flatMap_append_inj (p := fun Z => lineHead Z = some 'c')
            (q := fun Z => lineHead Z ≠ some 'c') (by simp) (fun label _ => next label)
            (fun label _ => next label)
            (fun a ha b hb Z W _ _ h =>
              one a (by simp [ha]) b (by simp [hb]) Z W (by simpa using h))
            hX hY rest
          exact ⟨rfl, same⟩

theorem function_append_inj {name other : String} {params params' : List String}
    {body body' : Option (List Tree)} (hname : name = "" ∨ isIdentifier name)
    (hparams : ∀ param ∈ params, isIdentifier param)
    (hbody : Separates width directive .statement (block body))
    (hname' : other = "" ∨ isIdentifier other) (hparams' : ∀ param ∈ params', isIdentifier param)
    (hbody' : Fits .statement (block body'))
    (h : (function name params (block body)).write width directive depth ++ X =
      (function other params' (block body')).write width directive depth ++ Y) :
    function name params (block body) = function other params' (block body') ∧ X = Y := by
  have word {name : String} (h : name = "" ∨ isIdentifier name) :
      ∀ c ∈ name.toList, isWordChar c := by
    rcases h with rfl | h
    · simp
    · exact (isIdentifier_iff.mp h).1.1.2
  have closing : ") ".toList = [')', ' '] := rfl
  simp only [write_function _ _ _ _ hname hparams, write_function _ _ _ _ hname' hparams',
    List.append_assoc, List.append_cancel_left_eq, List.cons_append, List.nil_append, closing] at h
  obtain ⟨names, behindName⟩ :=
    word_append_inj (word hname) (word hname') (outside_word rfl _) (outside_word rfl _) h
  obtain ⟨lists, behindParams⟩ :=
    params_append_inj hparams hparams' (List.cons.inj behindName).2
  obtain ⟨bodies, rest⟩ := hbody depth _ X Y hbody' (by simp [Follow, isOpen])
    (by simp [Follow, isOpen]) (List.cons.inj behindParams).2
  exact ⟨by rw [String.toList_inj.mp names, lists, bodies], rest⟩

theorem head?_declarator {t : Tree} (h : Fits .declarator t) :
    ∃ c, isWordChar c ∧ ∀ X, (t.write width directive depth ++ X).head? = some c := by
  cases h with
  | function hrole => simp at hrole
  | declarator hname hx =>
      obtain ⟨c, cs, hc, inside⟩ := exists_cons_of_isIdentifier hname
      refine ⟨c, inside, fun X => ?_⟩
      rw [write_declarator _ _ _ hname, hc]
      rfl

theorem declaration_append_inj {ts us : List Tree}
    (hts : ∀ t ∈ ts, Fits .declarator t ∧ Separates width directive .declarator t)
    (hus : ∀ u ∈ us, Fits .declarator u)
    (h : (declaration ts).write width directive depth ++ X =
      (declaration us).write width directive depth ++ Y) : ts = us ∧ X = Y := by
  have opening : "var ;".toList = "var ".toList ++ [';'] := rfl
  have mixed {v : Tree} {vs : List Tree} {X Y : List Char} (hv : Fits .declarator v) :
      (declaration []).write width directive depth ++ X ≠
        (declaration (v :: vs)).write width directive depth ++ Y := by
    intro h
    simp only [write_declaration_nil, write_declaration_cons, opening, List.append_assoc,
      List.append_cancel_left_eq] at h
    obtain ⟨c, word, start⟩ :
        ∃ c, isWordChar c ∧ ∀ X, (v.write width directive depth ++ X).head? = some c :=
      head?_declarator hv
    have heads := congrArg List.head? h
    rw [start] at heads
    rw [← Option.some.inj heads] at word
    revert word
    decide
  cases ts with
  | nil =>
      cases us with
      | nil => exact ⟨rfl, List.append_cancel_left h⟩
      | cons u us => exact absurd h (mixed (hus u (by simp)))
  | cons t ts =>
      cases us with
      | nil => exact absurd h.symm (mixed (hts t (by simp)).1)
      | cons u us =>
          simp only [write_declaration_cons, List.append_assoc, List.append_cancel_left_eq,
            List.singleton_append] at h
          have next (vs : List Tree) (Z : List Char) :
              ((vs.flatMap fun v =>
                ',' :: newline width (depth + 1) ++ v.write width directive depth) ++
                  ';' :: Z).head? ∈ [none, some ',', some ';'] := by
            cases vs <;> simp
          obtain ⟨first, rest⟩ := (hts t (by simp)).2 depth u _ _ (hus u (by simp)) (next ts X)
            (next us Y) h
          have one : ∀ a ∈ ts, ∀ b ∈ us, ∀ Z W, Z.head? = some ',' ∨ Z.head? = some ';' →
              W.head? = some ',' ∨ W.head? = some ';' →
              ',' :: newline width (depth + 1) ++ a.write width directive depth ++ Z =
                ',' :: newline width (depth + 1) ++ b.write width directive depth ++ W →
              a = b ∧ Z = W := by
            intro a ha b hb Z W hZ hW h
            have follow {Z : List Char} (hZ : Z.head? = some ',' ∨ Z.head? = some ';') :
                Z.head? ∈ [none, some ',', some ';'] := by
              rcases hZ with hZ | hZ <;> simp [hZ]
            rw [List.append_assoc, List.append_assoc, List.append_cancel_left_eq] at h
            exact (hts a (by simp [ha])).2 depth b Z W (hus b (by simp [hb])) (follow hZ)
              (follow hW) h
          obtain ⟨others, rest⟩ := flatMap_append_inj (by simp +contextual) (by simp) (by simp)
            one rfl rfl rest
          exact ⟨by rw [first, others], (List.cons.inj rest).2⟩

theorem separates_boolean (value : Bool) :
    Separates width directive .expression (boolean value) := by
  intro depth u X Y hu _ _ h
  cases hu with
  | boolean other => cases value <;> cases other <;> simp_all [write_boolean]
  | function _ hname hparams hbody =>
      rw [write_boolean, write_function _ _ _ _ hname hparams] at h
      cases value <;> simp at h

theorem separates_function {role : Role} {name : String} {params : List String}
    {body : Option (List Tree)} (h : Fits role (function name params (block body)))
    (ih : Separates width directive .statement (block body)) :
    Separates width directive role (function name params (block body)) := by
  intro depth u X Y hu _ _ heq
  have leads (hrole : role = .statement) : 'f' = u.lead :=
    lead_eq_of_append_eq h hu (.inr (.inl hrole)) heq
  cases h with
  | function hrole hname hparams hbody =>
      cases hu with
      | boolean value =>
          rw [write_boolean, write_function _ _ _ _ hname hparams] at heq
          cases value <;> simp at heq
      | function _ hname' hparams' hbody' =>
          exact function_append_inj hname hparams ih hname' hparams' hbody' heq
      | empty | block _ | conditional _ _ _ _ | switch _ _ | declaration _ =>
          simp [lead] at leads
      | caseGroup _ _ _ | declarator _ _ | program _ _ => simp at hrole

theorem separates_empty : Separates width directive .statement empty := by
  intro depth u X Y hu _ _ h
  have leads := lead_eq_of_append_eq .empty hu (.inr (.inl rfl)) h
  cases hu with
  | empty => exact ⟨rfl, List.append_cancel_left h⟩
  | _ => simp [lead] at leads

theorem separates_block {ts : Option (List Tree)}
    (hts : ∀ list ∈ ts, ∀ t ∈ list, Fits .statement t ∧ Separates width directive .statement t) :
    Separates width directive .statement (block ts) := by
  intro depth u X Y hu _ _ h
  have fits : Fits .statement (block ts) := .block fun list hl t ht => (hts list hl t ht).1
  have leads := lead_eq_of_append_eq fits hu (.inr (.inl rfl)) h
  cases hu with
  | block hus =>
      obtain ⟨same, rest⟩ := braces_append_inj (.inl rfl) hts hus h
      exact ⟨congrArg _ same, rest⟩
  | _ => simp [lead] at leads

/-- A second branch is told from its absence because what is behind a conditional without one
does not start like one. -/
theorem else_append_inj {x y : Option Tree} {t u t' u' : Tree}
    (hx : ∀ z ∈ x, Separates width directive .statement z) (hy : ∀ z ∈ y, Fits .statement z)
    (hX : Follow .statement (conditional t u x) X)
    (hY : Follow .statement (conditional t' u' y) Y)
    (h : writeOptional width directive depth "else " x ++ X =
      writeOptional width directive depth "else " y ++ Y) : x = y ∧ X = Y := by
  cases x with
  | none =>
      cases y with
      | none => exact ⟨rfl, h⟩
      | some y => exact absurd (congrArg List.head? h) (hX rfl)
  | some x =>
      cases y with
      | none => exact absurd (congrArg List.head? h.symm) (hY rfl)
      | some y =>
          simp only [writeOptional, List.append_assoc, List.append_cancel_left_eq] at h
          obtain ⟨same, rest⟩ := hx x rfl depth y X Y (hy y rfl) hX hY h
          exact ⟨congrArg some same, rest⟩

/-- A branch that is followed by another one is not open, so nothing is asked of what follows;
a branch that is followed by none ends where the conditional does. -/
theorem follow_branch {t u : Tree} {x : Option Tree} (closed : x ≠ none → u.isOpen = false)
    (hX : Follow .statement (conditional t u x) X) :
    Follow .statement u (writeOptional width directive depth "else " x ++ X) := by
  cases x with
  | none => exact fun _ => hX rfl
  | some x => simp [Follow, closed (by simp)]

theorem separates_conditional {t u : Tree} {x : Option Tree}
    (h : Fits .statement (conditional t u x)) (ht : Separates width directive .expression t)
    (hu : Separates width directive .statement u)
    (hx : ∀ y ∈ x, Separates width directive .statement y) :
    Separates width directive .statement (conditional t u x) := by
  intro depth v X Y hv hX hY heq
  have leads := lead_eq_of_append_eq h hv (.inr (.inl rfl)) heq
  cases h with
  | conditional _ _ closed _ =>
      cases hv with
      | conditional ht' hu' closed' hx' =>
          simp only [write_conditional, List.append_assoc, List.append_cancel_left_eq] at heq
          obtain ⟨tests, behindTest⟩ := ht depth _ _ _ ht' trivial trivial heq
          obtain ⟨branches, behindBranch⟩ := hu depth _ _ _ hu' (follow_branch closed hX)
            (follow_branch closed' hY) (List.append_cancel_left behindTest)
          obtain ⟨others, rest⟩ := else_append_inj hx hx' hX hY behindBranch
          exact ⟨by rw [tests, branches, others], rest⟩
      | _ => simp [lead] at leads

theorem separates_switch {t : Tree} {ts : Option (List Tree)} (fits : Fits .expression t)
    (ht : Separates width directive .expression t)
    (hts : ∀ list ∈ ts, ∀ u ∈ list, Fits .group u ∧ Separates width directive .group u) :
    Separates width directive .statement (switch t ts) := by
  intro depth v X Y hv _ _ h
  have fits : Fits .statement (switch t ts) :=
    .switch fits fun list hl t ht => (hts list hl t ht).1
  have leads := lead_eq_of_append_eq fits hv (.inr (.inl rfl)) h
  cases hv with
  | switch ht' hts' =>
      simp only [write_switch, List.append_assoc, List.append_cancel_left_eq] at h
      obtain ⟨subjects, behindSubject⟩ := ht depth _ _ _ ht' trivial trivial h
      obtain ⟨groups, rest⟩ :=
        braces_append_inj (.inr rfl) hts hts' (List.append_cancel_left behindSubject)
      exact ⟨by rw [subjects, groups], rest⟩
  | _ => simp [lead] at leads

theorem separates_caseGroup {labels : List (String ⊕ Tree)} {ts : List Tree}
    (names : ∀ name, .inl name ∈ labels → isIdentifier name)
    (nodes : ∀ t, .inr t ∈ labels → Fits .expression t ∧ Separates width directive .expression t)
    (hts : ∀ t ∈ ts, Fits .statement t ∧ Separates width directive .statement t) :
    Separates width directive .group (caseGroup labels ts) := by
  intro depth u X Y hu hX hY h
  have noLabel {t : Tree} {ts : List Tree} {X : List Char} (hts : ∀ t ∈ ts, Fits .statement t)
      (hX : Follow .group t X) : lineHead (writeTail width directive depth ts ++ X) ≠ some 'c' := by
    cases ts with
    | nil =>
        intro e
        have empty : lineHead (writeTail width directive depth [] ++ X) ∈ [none, some '\n'] :=
          lineHead_writeTail_nil hX
        simp [e] at empty
    | cons t ts =>
        rw [lineHead_writeTail_cons (hts t (by simp))]
        intro e
        exact absurd (Option.some.inj e ▸ lead_mem_of_statement (hts t (by simp))) (by decide)
  cases hu with
  | function hrole => simp at hrole
  | caseGroup names' nodes' hts' =>
      simp only [write_caseGroup _ _ _ names, write_caseGroup _ _ _ names', List.append_assoc] at h
      obtain ⟨heads, behindHeads⟩ := heads_append_inj names nodes names' nodes'
        (noLabel (fun t ht => (hts t ht).1) hX) (noLabel hts' hY) h
      obtain ⟨tails, rest⟩ := tail_append_inj hts hts' hX hY behindHeads
      exact ⟨by rw [heads, tails], rest⟩

theorem separates_declaration {ts : List Tree}
    (hts : ∀ t ∈ ts, Fits .declarator t ∧ Separates width directive .declarator t) :
    Separates width directive .statement (declaration ts) := by
  intro depth u X Y hu _ _ h
  have fits : Fits .statement (declaration ts) := .declaration fun t ht => (hts t ht).1
  have leads := lead_eq_of_append_eq fits hu (.inr (.inl rfl)) h
  cases hu with
  | declaration hus =>
      obtain ⟨same, rest⟩ := declaration_append_inj hts hus h
      exact ⟨congrArg _ same, rest⟩
  | _ => simp [lead] at leads

theorem separates_declarator {name : String} {x : Option Tree} (hname : isIdentifier name)
    (hx : ∀ t ∈ x, Separates width directive .expression t) :
    Separates width directive .declarator (declarator name x) := by
  intro depth u X Y hu hX hY h
  have behindName (x : Option Tree) {t : Tree} {Z : List Char} (hZ : Follow .declarator t Z) :
      ∀ c ∈ (writeOptional width directive depth " = " x ++ Z).head?, isWordChar c = false := by
    cases x with
    | none =>
        simp only [Follow, List.mem_cons, List.not_mem_nil, or_false] at hZ
        rcases hZ with hZ | hZ | hZ <;> simp [writeOptional, hZ] <;> decide
    | some x =>
        simp [writeOptional]
        decide
  have mixed {t x : Tree} {Z W : List Char} (hZ : Follow .declarator t Z) :
      Z ≠ writeOptional width directive depth " = " (some x) ++ W := by
    rintro rfl
    simp [Follow, writeOptional] at hZ
  cases hu with
  | function hrole => simp at hrole
  | @declarator other y hother hy =>
      rw [write_declarator _ _ _ hname, write_declarator _ _ _ hother, List.append_assoc,
        List.append_assoc] at h
      obtain ⟨names, rest⟩ := word_append_inj (isIdentifier_iff.mp hname).1.1.2
        (isIdentifier_iff.mp hother).1.1.2 (behindName x hX) (behindName y hY) h
      rw [String.toList_inj] at names
      cases x with
      | none =>
          cases y with
          | none => exact ⟨by rw [names], rest⟩
          | some y => exact absurd rest (mixed hX)
      | some x =>
          cases y with
          | none => exact absurd rest.symm (mixed hY)
          | some y =>
              simp only [writeOptional, List.append_assoc, List.append_cancel_left_eq] at rest
              obtain ⟨same, rest⟩ := hx x rfl depth y X Y (hy y rfl) trivial trivial rest
              exact ⟨by rw [names, same], rest⟩

theorem separates_of_fits {role : Role} {t : Tree} (h : Fits role t) :
    role ≠ .program → Separates width directive role t := by
  induction h with
  | boolean value => exact fun _ => separates_boolean value
  | function hrole hname hparams hbody ih =>
      exact fun _ => separates_function (.function hrole hname hparams hbody) (ih (by simp))
  | empty => exact fun _ => separates_empty
  | block h ih =>
      exact fun _ => separates_block fun list hl t ht => ⟨h list hl t ht, ih list hl t ht (by simp)⟩
  | conditional ht hu closed hx iht ihu ihx =>
      exact fun _ => separates_conditional (.conditional ht hu closed hx) (iht (by simp))
        (ihu (by simp)) fun y hy => ihx y hy (by simp)
  | switch ht hts iht ihts =>
      exact fun _ => separates_switch ht (iht (by simp)) fun list hl u hu =>
        ⟨hts list hl u hu, ihts list hl u hu (by simp)⟩
  | caseGroup names nodes hts ihnodes ihts =>
      exact fun _ => separates_caseGroup names
        (fun t ht => ⟨nodes t ht, ihnodes t ht (by simp)⟩)
        (fun t ht => ⟨hts t ht, ihts t ht (by simp)⟩)
  | declaration h ih =>
      exact fun _ => separates_declaration fun t ht => ⟨h t ht, ih t ht (by simp)⟩
  | declarator hname hx ih =>
      exact fun _ => separates_declarator hname fun t ht => ih t ht (by simp)
  | program => exact fun hrole => absurd rfl hrole

end Tree
end ScriptGraph
