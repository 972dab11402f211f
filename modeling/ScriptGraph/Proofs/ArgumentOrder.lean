import ScriptGraph.Bindings
import ScriptGraph.CommandLine
import ScriptGraph.Proofs.PathText

/-!
Command lines made of options only. Arguments come in groups: a flag by its long name or
several by their letters, and the directory with its value apart or joined on. Every
group is read on its own whatever stands around it and changes the options in its own
way, so the outcome can be told from what is among the groups and from the last one that
names a directory.
-/

namespace ScriptGraph
namespace CommandLine
namespace Opt

def longName : Opt → String
  | help => "--help"
  | directory => "--fixtures-dir"
  | verbose => "--verbose"
  | failFast => "--fail-fast"

/-- As much of the long name as tells it from the other names. -/
def shortest : Opt → String
  | help => "--h"
  | directory => "--fi"
  | verbose => "--v"
  | failFast => "--fa"

theorem filter_shortest (opt : Opt) :
    table.filter (fun entry => opt.shortest.toList.isPrefixOf entry.1.toList) =
      [(opt.longName, opt)] := by
  cases opt <;> decide

theorem eq_of_shortest {opt : Opt} {entry : String × Opt} (mem : entry ∈ table)
    (h : opt.shortest.toList <+: entry.1.toList) : entry = (opt.longName, opt) := by
  have found : entry ∈ table.filter fun entry => opt.shortest.toList.isPrefixOf entry.1.toList :=
    List.mem_filter.mpr ⟨mem, List.isPrefixOf_iff_prefix.mpr h⟩
  rw [filter_shortest] at found
  exact List.mem_singleton.mp found

theorem mem_table (opt : Opt) : (opt.longName, opt) ∈ table := by
  cases opt <;> decide

theorem equals_not_mem : ∀ entry ∈ table, '=' ∉ entry.1.toList := by
  decide

end Opt

theorem divide_of_not_mem {arg : String} (h : '=' ∉ arg.toList) : divide arg = (arg, none) := by
  simp [divide, Pieces.cut_of_split (Pieces.split_of_not_mem h)]

theorem divide_append {name : String} (h : '=' ∉ name.toList) (value : String) :
    divide (name ++ "=" ++ value) = (name, some value) := by
  have parts : Pieces.split '=' (name ++ "=" ++ value).toList =
      name.toList :: Pieces.split '=' value.toList := by
    simpa using Pieces.split_append_sep h value.toList
  rw [divide, Pieces.cut_of_split parts]
  split
  case h_1 start same =>
    exact absurd (Prod.mk.inj same).2 (Pieces.split_ne_nil '=' value.toList)
  case h_2 start pieces _ same =>
    obtain ⟨rfl, rfl⟩ := Prod.mk.inj same
    rw [Pieces.join_split, String.ofList_toList, String.ofList_toList]

theorem isShortName_eq_false {name : String} (h : ['-', '-'] <+: name.toList) :
    isShortName name = false := by
  obtain ⟨rest, parts⟩ := h
  simp [isShortName, ← parts]

/-- A long name, possibly cut off where it can still be told from the others. -/
structure Spelling (opt : Opt) where
  text : String
  begins : opt.shortest.toList <+: text.toList
  isPart : text.toList <+: opt.longName.toList

namespace Spelling
variable {opt : Opt} (s : Spelling opt)

theorem filter_text :
    Opt.table.filter (fun entry => s.text.toList.isPrefixOf entry.1.toList) =
      [(opt.longName, opt)] := by
  rw [← opt.filter_shortest]
  refine List.filter_congr fun entry mem => ?_
  rw [Bool.eq_iff_iff, List.isPrefixOf_iff_prefix, List.isPrefixOf_iff_prefix]
  refine ⟨s.begins.trans, fun starts => ?_⟩
  rw [Opt.eq_of_shortest mem starts]
  exact s.isPart

theorem eq_of_lookup {other : Opt} (h : Opt.table.lookup s.text = some other) : other = opt :=
  congrArg Prod.snd (Opt.eq_of_shortest (mem_of_lookup h) s.begins)

theorem equals_not_mem : '=' ∉ s.text.toList := fun mem =>
  Opt.equals_not_mem _ opt.mem_table (s.isPart.subset mem)

theorem dashes : ['-', '-'] <+: s.text.toList := by
  have start : ['-', '-'] <+: opt.shortest.toList := by cases opt <;> decide
  exact start.trans s.begins

theorem text_ne_mark : s.text ≠ "--" := by
  intro same
  have size := s.begins.length_le
  rw [same] at size
  cases opt <;> exact absurd size (by decide)

theorem candidates_of_divide {arg : String} {value : Option String}
    (start : ['-', '-'] <+: arg.toList) (h : divide arg = (s.text, value)) :
    candidates arg = [(opt.longName, ⟨opt, false, value⟩)] := by
  have long : isShortName opt.longName = false :=
    isShortName_eq_false (s.dashes.trans s.isPart)
  -- The candidates are the names that begin like this, each with the value.
  have all := congrArg (List.filterMap fun entry : String × Opt =>
    some (entry.1, (⟨entry.2, isShortName entry.1, value⟩ : Mention))) s.filter_text
  rw [List.filterMap_filter] at all
  rw [candidates, isShortName_eq_false start, h]
  simpa [long] using all

/-- It makes no difference how much of the name is written, nor whether a value is joined on. -/
theorem read_of_divide {arg : String} {value : Option String}
    (start : ['-', '-'] <+: arg.toList) (h : divide arg = (s.text, value)) :
    read arg = .ok (.option ⟨opt, false, value⟩) := by
  have dash : arg.toList.head? = some '-' := by
    obtain ⟨rest, parts⟩ := start
    rw [← parts]
    rfl
  have length : arg.length ≠ 1 := by
    have := start.length_le
    rw [String.length_toList, List.length_cons, List.length_singleton] at this
    omega
  rw [read, if_neg (by simp [dash])]
  cases whole : Opt.table.lookup arg with
  | some other =>
      -- An argument that is a name has no equals sign in it, so nothing is joined on.
      rw [divide_of_not_mem (Opt.equals_not_mem _ (mem_of_lookup whole)), Prod.mk.injEq] at h
      obtain ⟨rfl, rfl⟩ := h
      simp [s.eq_of_lookup whole, isShortName_eq_false start]
  | none =>
      rw [h, s.candidates_of_divide start h]
      simp only [length, if_false]
      split
      case h_1 other found =>
        have named : Opt.table.lookup s.text = some other := by
          split at found
          case isTrue => exact found
          case isFalse => cases found
        simp [s.eq_of_lookup named, isShortName_eq_false s.dashes]
      case h_2 => rfl

theorem read_text : read s.text = .ok (.option ⟨opt, false, none⟩) :=
  s.read_of_divide s.dashes (divide_of_not_mem s.equals_not_mem)

theorem read_joined (value : String) :
    read (s.text ++ "=" ++ value) = .ok (.option ⟨opt, false, some value⟩) := by
  refine s.read_of_divide ?_ (divide_append s.equals_not_mem value)
  rw [String.append_assoc, String.toList_append]
  exact s.dashes.trans (List.prefix_append _ _)

end Spelling

/-- An option that is set by being named. -/
inductive Flag
  | verbose
  | failFast
  deriving DecidableEq

namespace Flag

def opt : Flag → Opt
  | verbose => .verbose
  | failFast => .failFast

def letter : Flag → Char
  | verbose => 'v'
  | failFast => 'x'

/-- Letters behind a single dash. -/
def cluster (flags : List Flag) : String :=
  String.ofList ('-' :: flags.map letter)

/-- What such an argument is read as: the first letter with the others for a value. -/
def mention (first : Flag) : List Flag → Mention
  | [] => ⟨first.opt, true, none⟩
  | next :: others => ⟨first.opt, true, some (String.ofList ((next :: others).map letter))⟩

theorem takesValue_opt (flag : Flag) : flag.opt.takesValue = false := by
  cases flag <;> rfl

theorem lookup_letter (flag : Flag) :
    Opt.table.lookup (String.ofList ['-', flag.letter]) = some flag.opt := by
  cases flag <;> decide

theorem equals_not_mem_cluster (flags : List Flag) : '=' ∉ (cluster flags).toList := by
  have letters : ∀ flag : Flag, flag.letter ≠ '=' := by
    intro flag
    cases flag <;> decide
  simp [cluster, letters]

section Several
variable (first next : Flag) (others : List Flag)

theorem toList_cluster : (cluster (first :: next :: others)).toList =
    '-' :: first.letter :: next.letter :: others.map letter :=
  String.toList_ofList

theorem isShortName_cluster : isShortName (cluster (first :: next :: others)) = true := by
  cases first <;> simp [isShortName, toList_cluster, letter]

/-- A short name has two characters, so several letters are none. -/
theorem lookup_cluster : Opt.table.lookup (cluster (first :: next :: others)) = none := by
  have sizes : ∀ entry ∈ Opt.table, isShortName entry.1 → entry.1.toList.length = 2 := by decide
  cases found : Opt.table.lookup (cluster (first :: next :: others)) with
  | none => rfl
  | some opt =>
      have size := sizes _ (mem_of_lookup found) (isShortName_cluster first next others)
      simp [toList_cluster] at size

theorem candidates_cluster : candidates (cluster (first :: next :: others)) =
    [(String.ofList ['-', first.letter], mention first (next :: others))] := by
  rw [candidates, if_pos (isShortName_cluster first next others), toList_cluster]
  cases first <;> simp [Opt.table, letter, mention, opt]

end Several

theorem read_cluster (first : Flag) (others : List Flag) :
    read (cluster (first :: others)) = .ok (.option (mention first others)) := by
  cases others with
  | nil => cases first <;> rfl
  | cons next others =>
      rw [read, lookup_cluster, divide_of_not_mem (equals_not_mem_cluster _), candidates_cluster]
      simp [toList_cluster, ← String.length_toList]

theorem cluster_ne_mark (first : Flag) (others : List Flag) : cluster (first :: others) ≠ "--" := by
  intro same
  have chars := congrArg String.toList same
  rw [cluster, String.toList_ofList] at chars
  cases first <;> cases chars

theorem cluster_letters (first next : Flag) (others : List Flag) :
    CommandLine.cluster ((next :: others).map letter) first.opt true =
      .ok ((first :: next :: others).map fun flag => (flag.opt, none)) := by
  induction others generalizing first next with
  | nil =>
      rw [List.map_cons, CommandLine.cluster, first.takesValue_opt]
      simp only [lookup_letter]
      rfl
  | cons other others ih =>
      rw [List.map_cons, CommandLine.cluster, first.takesValue_opt]
      simp only [lookup_letter, ih]
      rfl

theorem expand_mention (first : Flag) (others : List Flag) :
    expand (mention first others) = .ok ((first :: others).map fun flag => (flag.opt, none)) := by
  cases others with
  | nil => rfl
  | cons next others =>
      simp only [expand, mention, String.toList_ofList]
      exact cluster_letters first next others

theorem apply_opt (flag : Flag) (options : Options) :
    apply options (flag.opt, none) = .ok { options with
      verbose := options.verbose || decide (verbose = flag)
      failFast := options.failFast || decide (failFast = flag) } := by
  cases flag <;> simp [opt, apply]

theorem foldlM_apply (flags : List Flag) (options : Options) :
    (flags.map fun flag => (flag.opt, (none : Option String))).foldlM apply options =
      .ok { options with
        verbose := options.verbose || decide (verbose ∈ flags)
        failFast := options.failFast || decide (failFast ∈ flags) } := by
  induction flags generalizing options with
  | nil => simp [pure, Except.pure]
  | cons flag flags ih =>
      rw [List.map_cons, List.foldlM_cons, apply_opt]
      refine (ih _).trans ?_
      simp [Bool.or_assoc]

end Flag

/-- Arguments that belong together. The letter of a flag alone is a cluster of one. -/
inductive Group
  | long (flag : Flag) (name : Spelling flag.opt)
  | short (first : Flag) (others : List Flag)
  | apart (name : Spelling .directory) (value : String) (plain : value.toList.head? ≠ some '-')
  | joined (name : Spelling .directory) (value : String) (unmarked : value ≠ "--")

/-- The choice of a directory by its text. -/
def Choice.ofText (d : String) : Choice :=
  .path (.ofString d)

namespace Group

def args : Group → List String
  | long _ name => [name.text]
  | short first others => [Flag.cluster (first :: others)]
  | apart name value _ => [name.text, value]
  | joined name value _ => [name.text ++ "=" ++ value]

def sets (flag : Flag) : Group → Bool
  | long set _ => flag = set
  | short first others => flag ∈ first :: others
  | apart _ _ _ | joined _ _ _ => false

def directory? : Group → Option String
  | long _ _ | short _ _ => none
  | apart _ value _ | joined _ value _ => some value

def tokens : Group → List Token
  | long flag _ => [.option ⟨flag.opt, false, none⟩]
  | short first others => [.option (Flag.mention first others)]
  | apart _ value _ => [.option ⟨.directory, false, none⟩, .plain value]
  | joined _ value _ => [.option ⟨.directory, false, some value⟩]

/-- The options after a group. -/
def change (options : Options) (group : Group) : Options where
  directory := (group.directory?.map .ofText).getD options.directory
  verbose := options.verbose || group.sets .verbose
  failFast := options.failFast || group.sets .failFast

end Group

theorem readAll_cons {arg : String} {token : Token} (h : read arg = .ok token)
    (unmarked : arg ≠ "--") (args : List String) :
    readAll (arg :: args) = (readAll args).map (token :: ·) := by
  rw [readAll, if_neg unmarked, h]
  cases readAll args <;> rfl

/-- An option that has the value it needs is carried out, whatever comes next. -/
theorem carryOut_option {mention : Mention} {options changed : Options}
    {named : List (Opt × Option String)} (h : expand mention = .ok named)
    (effect : named.foldlM apply options = .ok changed)
    (complete : mention.opt.takesValue → mention.value ≠ none) (extra : List String)
    (tokens : List Token) :
    carryOut options extra (.option mention :: tokens) = carryOut changed extra tokens := by
  cases tokens with
  | nil => simp [carryOut, h, effect, bind, Except.bind]
  | cons next tokens =>
      simp only [carryOut, h, bind, Except.bind, effect]
      split
      case h_1 missing takes => exact absurd missing (complete takes)
      case h_2 => rfl

theorem expand_directory (value : String) :
    expand ⟨.directory, false, some value⟩ = .ok [(.directory, some value)] := by
  simp [expand, cluster, Opt.takesValue]

theorem apply_directory {value : String} (unmarked : value ≠ "--") (options : Options) :
    apply options (.directory, some value) =
      .ok { options with directory := .ofText value } := by
  simp [apply, unmarked, Choice.ofText]

/-- The directory takes the plain argument behind it for its value. -/
theorem carryOut_directory {value : String} (unmarked : value ≠ "--") (options : Options)
    (extra : List String) (tokens : List Token) :
    carryOut options extra (.option ⟨.directory, false, none⟩ :: .plain value :: tokens) =
      carryOut { options with directory := .ofText value } extra tokens := by
  rw [carryOut]
  change (apply options (.directory, some value) >>= fun changed =>
    carryOut changed extra tokens) = _
  rw [apply_directory unmarked]
  rfl

namespace Group

theorem ne_mark_of_plain {value : String} (plain : value.toList.head? ≠ some '-') :
    value ≠ "--" := by
  rintro rfl
  exact plain rfl

theorem readAll_args (group : Group) (args : List String) :
    readAll (group.args ++ args) = (readAll args).map (group.tokens ++ ·) := by
  cases group with
  | long flag name => exact readAll_cons name.read_text name.text_ne_mark args
  | short first others =>
      exact readAll_cons (Flag.read_cluster first others) (Flag.cluster_ne_mark first others) args
  | apart name value plain =>
      have read : read value = .ok (.plain value) := by rw [read, if_pos plain]
      have rest := readAll_cons read (ne_mark_of_plain plain) args
      refine (readAll_cons name.read_text name.text_ne_mark (value :: args)).trans ?_
      rw [rest]
      cases readAll args <;> rfl
  | joined name value _ =>
      refine readAll_cons (name.read_joined value) (fun same => ?_) args
      have mem : '=' ∈ "--".toList := by
        rw [← same]
        simp
      exact absurd mem (by decide)

theorem readAll_groups (groups : List Group) :
    readAll (groups.flatMap args) = .ok (groups.flatMap tokens) := by
  induction groups with
  | nil => rfl
  | cons group groups ih =>
      rw [List.flatMap_cons, readAll_args, ih]
      rfl

theorem carryOut_tokens (group : Group) (options : Options) (rest : List Token) :
    carryOut options [] (group.tokens ++ rest) = carryOut (change options group) [] rest := by
  cases group with
  | long flag name =>
      have effect := Flag.foldlM_apply [flag] options
      rw [List.map_singleton] at effect
      refine (carryOut_option rfl effect (by simp [flag.takesValue_opt]) [] rest).trans ?_
      simp [change, sets, directory?]
  | short first others =>
      have effect := Flag.foldlM_apply (first :: others) options
      refine carryOut_option (Flag.expand_mention first others) effect ?_ [] rest
      cases others <;> simp [Flag.mention, Flag.takesValue_opt]
  | apart name value plain =>
      refine (carryOut_directory (ne_mark_of_plain plain) options [] rest).trans ?_
      simp [change, sets, directory?]
  | joined name value unmarked =>
      have effect : [(Opt.directory, some value)].foldlM apply options =
          .ok { options with directory := .ofText value } := by
        rw [List.foldlM_cons, apply_directory unmarked]
        rfl
      refine (carryOut_option (expand_directory value) effect (by simp) [] rest).trans ?_
      simp [change, sets, directory?]

theorem carryOut_groups (groups : List Group) (options : Options) :
    carryOut options [] (groups.flatMap tokens) = .ok (groups.foldl change options) := by
  induction groups generalizing options with
  | nil => rfl
  | cons group groups ih => rw [List.flatMap_cons, carryOut_tokens, ih, List.foldl_cons]

/-- The directory that the last group with one names. -/
def lastDirectory? (groups : List Group) : Option String :=
  (groups.filterMap directory?).getLast?

/-- What groups ask for, taken together. -/
def wanted (groups : List Group) : Options where
  directory := ((lastDirectory? groups).map .ofText).getD .unset
  verbose := groups.any (sets .verbose)
  failFast := groups.any (sets .failFast)

@[simp] theorem lastDirectory?_nil : lastDirectory? [] = none := rfl

@[simp] theorem lastDirectory?_cons (group : Group) (groups : List Group) :
    lastDirectory? (group :: groups) = (lastDirectory? groups).or group.directory? := by
  rw [lastDirectory?, lastDirectory?]
  cases own : group.directory? with
  | none => rw [List.filterMap_cons_none own, Option.or_none]
  | some d =>
      rw [List.filterMap_cons_some own, List.getLast?_cons]
      cases (groups.filterMap directory?).getLast? <;> rfl

theorem foldl_change (groups : List Group) (options : Options) :
    groups.foldl change options =
      { directory := ((lastDirectory? groups).map .ofText).getD options.directory
        verbose := options.verbose || groups.any (sets .verbose)
        failFast := options.failFast || groups.any (sets .failFast) } := by
  induction groups generalizing options with
  | nil => simp
  | cons group groups ih =>
      rw [List.foldl_cons, ih, lastDirectory?_cons]
      cases lastDirectory? groups <;> simp [change, Bool.or_assoc]

theorem parse_args (groups : List Group) : parse (groups.flatMap args) = .ok (wanted groups) := by
  rw [parse, readAll_groups]
  refine (carryOut_groups groups .default).trans ?_
  rw [foldl_change]
  simp [wanted, Options.default]

theorem wanted_of_perm {groups others : List Group} (h : groups.Perm others)
    (last : lastDirectory? others = lastDirectory? groups) : wanted others = wanted groups := by
  rw [wanted, wanted, last, h.any_eq, h.any_eq]

/-- The directory by its whole name and with its value joined on. -/
def fullyNamed (value : String) (unmarked : value ≠ "--") : Group :=
  .joined ⟨"--fixtures-dir", by decide, by decide⟩ value unmarked

/-- What is reported for a directory asks for the same directory. -/
theorem wanted_fullyNamed {groups : List Group} {text : String} (unmarked : text ≠ "--")
    (h : (wanted groups).directory.text? = some text) :
    wanted [fullyNamed text unmarked] = { Options.default with
      directory := (wanted groups).directory } := by
  cases named : lastDirectory? groups with
  | none => simp [wanted, named, Choice.text?] at h
  | some d =>
      have reported : (Path.ofString d).text = text := by
        simpa [wanted, named, Choice.ofText, Choice.text?] using h
      have again : Path.ofString text = Path.ofString d := by rw [← reported, Path.ofString_text]
      simp [wanted, named, fullyNamed, directory?, sets, Choice.ofText, Options.default, again]

/-- Options are found wherever they stand: a flag is set if some group sets it, and of the
directories the last one counts. -/
theorem parse_groups (groups : List Group) :
    parse (groups.flatMap args) = .ok (wanted groups) ∧
    (∀ others, groups.Perm others → lastDirectory? others = lastDirectory? groups →
      parse (others.flatMap args) = parse (groups.flatMap args)) ∧
    ∀ text, (wanted groups).directory.text? = some text → text ≠ "--" →
      parse ["--fixtures-dir=" ++ text] =
        .ok { Options.default with directory := (wanted groups).directory } := by
  refine ⟨parse_args groups, fun others same last => ?_, fun text reported unmarked => ?_⟩
  · rw [parse_args, parse_args, wanted_of_perm same last]
  · have joined : ["--fixtures-dir=" ++ text] = [fullyNamed text unmarked].flatMap args := by
      simp [fullyNamed, args]
    rw [joined, parse_args, wanted_fullyNamed unmarked reported]

/-- Every form once, with an empty directory and one that looks like an option. -/
def assorted : List Group :=
  [.short .verbose [.failFast, .verbose],
    .apart ⟨"--fi", by decide, by decide⟩ "" (by decide),
    .joined ⟨"--fixtures-d", by decide, by decide⟩ "-a=//b/./c/" (by decide),
    .long .failFast ⟨"--fa", by decide, by decide⟩]

/-- The letters go from the front to the end. -/
def shuffled : List Group :=
  assorted.tail ++ assorted.take 1

theorem assorted_parse_groups :
    assorted.Perm shuffled ∧ lastDirectory? shuffled = lastDirectory? assorted ∧
    (wanted assorted).directory.text? = some "-a=/b/c" ∧
    parse ["-vxv", "--fi", "", "--fixtures-d=-a=//b/./c/", "--fa"] =
      .ok ⟨.ofText "-a=//b/./c/", true, true⟩ ∧
    parse ["--fi", "", "--fixtures-d=-a=//b/./c/", "--fa", "-vxv"] =
      .ok ⟨.ofText "-a=//b/./c/", true, true⟩ ∧
    parse ["--fixtures-dir=-a=/b/c"] = .ok ⟨.ofText "-a=//b/./c/", false, false⟩ := by
  obtain ⟨parsed, permuted, again⟩ := parse_groups assorted
  have same : assorted.Perm shuffled := (List.perm_append_singleton _ _).symm
  have last : lastDirectory? shuffled = lastDirectory? assorted := by decide
  have reported : (wanted assorted).directory.text? = some "-a=/b/c" := by decide
  have options : wanted assorted = ⟨.ofText "-a=//b/./c/", true, true⟩ := by decide
  have given : assorted.flatMap args =
    ["-vxv", "--fi", "", "--fixtures-d=-a=//b/./c/", "--fa"] := by decide
  have moved : shuffled.flatMap args =
    ["--fi", "", "--fixtures-d=-a=//b/./c/", "--fa", "-vxv"] := by decide
  have repeated : "--fixtures-dir=" ++ "-a=/b/c" = "--fixtures-dir=-a=/b/c" := by decide
  have onceMore := again _ reported (by decide)
  have moving := permuted _ same last
  rw [given, options] at parsed
  rw [given, moved, parsed] at moving
  rw [repeated, options] at onceMore
  exact ⟨same, last, reported, parsed, moving, onceMore⟩

end Group
end CommandLine
end ScriptGraph
