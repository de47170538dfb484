import Mull.JunkDetection.CompilationDatabase

/-! What the flags recorded in bitcode decode to. The command line is recorded with its blanks escaped,
and read back word by word as if it were not. -/

namespace Mull.JunkDetection
open Base

def escape (argument : Text) : Text :=
  argument.flatMap fun c => if c = ' ' ∨ c = '\\' then ['\\', c] else [c]

/-- What `-grecord-command-line` writes. -/
def recordCommandLine (argv : List Text) : Text := joinChunks ' ' (argv.map escape)

/-- Recorded as it is and read back as one word. -/
def Plain (argument : Text) : Prop := ∀ c ∈ argument, isSpace c = false ∧ c ≠ '\\'

instance (argument : Text) : Decidable (Plain argument) := List.decidableBAll _ argument

/-- Wherever the unit carries the command line, its flags are stored without the compiler and the unit's file name.
No later unit is recorded in its place. -/
def DecodesTo (directory filename : Text) (argv : List Text) : Prop :=
  ∀ (bitcode : List (List DICompileUnit)) (before after : List DICompileUnit) (extraFlags : Flags),
    bitcode.flatten = before ++ ⟨directory, filename, recordCommandLine argv⟩ :: after →
    (∀ unit ∈ after, unit.flags ≠ [] →
      absoluteFilePath unit.directory unit.filename ≠ absoluteFilePath directory filename) →
    (createBitcodeFlags (getCompilationDatabase bitcode) extraFlags).lookup
      (absoluteFilePath directory filename) =
      some (argv.tail.filter (· != filename) ++ extraFlags)

/-- One word is read for the compiler, and one for each argument but the file name. What else is read is the path,
which is left out. -/
structure Decodable (path filename compiler : Text) (arguments : List Text) : Prop where
  invoked : ∃ word others, flagsFromString (escape compiler) = word :: others ∧ ∀ other ∈ others, other = path
  others : ∀ argument ∈ arguments, argument ≠ filename → Plain argument ∧ argument ≠ path
  own : filename ∈ arguments → ∀ word ∈ flagsFromString (escape filename), word = path

/-- The compiler leaves no word to drop, or too many while an argument is taken for the path: these mistakes can
make up for each other. -/
def Entangled (path filename compiler : Text) (arguments : List Text) : Prop :=
  flagsFromString (escape compiler) = [] ∨
    (∃ word ∈ (flagsFromString (escape compiler)).tail, word ≠ path) ∧
      ∃ argument ∈ arguments, argument ≠ filename ∧ argument ≠ path ∧ escape argument = path

/-- The words after the first, without the path, are the arguments without the file name. -/
def Remain (path filename compiler : Text) (arguments : List Text) : Prop :=
  ((compiler :: arguments).flatMap fun argument => flagsFromString (escape argument)).tail.filter
    (· != path) =
    arguments.filter (· != filename)

theorem escape_cons (c : Char) (argument : Text) :
    escape (c :: argument) = (if c = ' ' ∨ c = '\\' then ['\\', c] else [c]) ++ escape argument := rfl

theorem sublist_escape (argument : Text) : List.Sublist argument (escape argument) := by
  induction argument with
  | nil => exact .slnil
  | cons c argument ih =>
    rw [escape_cons]
    split
    · exact .cons _ (ih.cons_cons c)
    · exact ih.cons_cons c

theorem length_le_escape (argument : Text) : argument.length ≤ (escape argument).length :=
  (sublist_escape argument).length_le

theorem escape_eq_self {argument : Text} :
    escape argument = argument ↔ ∀ c ∈ argument, c ≠ ' ' ∧ c ≠ '\\' := by
  induction argument with
  | nil => simp [escape]
  | cons c argument ih =>
    rw [escape_cons]
    split
    · rename_i special
      refine ⟨fun same => ?_, fun free => ?_⟩
      · have lengths := congrArg List.length same
        have longer := length_le_escape argument
        simp only [List.length_append, List.length_cons, List.length_nil] at lengths
        omega
      · exact absurd special (not_or.mpr (free c (by simp)))
    · rename_i ordinary
      rw [List.singleton_append, List.cons.injEq, ih, List.forall_mem_cons]
      exact ⟨fun ⟨_, free⟩ => ⟨not_or.mp ordinary, free⟩, fun free => ⟨rfl, free.2⟩⟩

theorem count_escape {c : Char} (other : c ≠ '\\') (argument : Text) :
    (escape argument).count c = argument.count c := by
  induction argument with
  | nil => rfl
  | cons d argument ih =>
    rw [escape_cons, List.count_append, ih]
    split
    · rw [List.count_cons_of_ne other.symm, List.count_cons, List.count_cons, List.count_nil]
      omega
    · rw [List.count_cons, List.count_cons, List.count_nil]
      omega

theorem mem_escape {argument : Text} {c : Char} (mem : c ∈ escape argument) : c ∈ argument ∨ c = '\\' := by
  obtain ⟨c', isIn, mem⟩ := List.mem_flatMap.mp mem
  split at mem
  · rcases List.mem_cons.mp mem with rfl | mem
    · exact .inr rfl
    · rw [List.mem_singleton.mp mem]
      exact .inl isIn
  · rw [List.mem_singleton.mp mem]
    exact .inl isIn

theorem escape_ne_nil {argument : Text} (nonempty : argument ≠ []) : escape argument ≠ [] := by
  intro empty
  have longer := length_le_escape argument
  rw [empty] at longer
  exact nonempty (List.eq_nil_of_length_eq_zero (Nat.le_zero.mp longer))

theorem flagsFromString_escape {argument : Text} (nonempty : argument ≠ [])
    (free : ∀ c ∈ argument, isSpace c = false) : flagsFromString (escape argument) = [escape argument] := by
  refine words_single (escape_ne_nil nonempty) fun c mem => ?_
  rcases mem_escape mem with mem | rfl
  · exact free c mem
  · rfl

theorem flagsFromString_recordCommandLine (argv : List Text) :
    flagsFromString (recordCommandLine argv) = argv.flatMap fun argument =>
      flagsFromString (escape argument) := by
  rw [flagsFromString, recordCommandLine, words_joinChunks (by rfl), List.flatMap_map]
  rfl

theorem recordCommandLine_ne_nil {compiler : Text} (nonempty : compiler ≠ []) (arguments : List Text) :
    recordCommandLine (compiler :: arguments) ≠ [] := by
  have first := escape_ne_nil nonempty
  cases arguments with
  | nil => exact first
  | cons argument arguments => exact fun empty => first (List.append_eq_nil_iff.mp empty).1

theorem plain_iff {argument : Text} :
    Plain argument ↔ (∀ c ∈ argument, isSpace c = false) ∧ escape argument = argument := by
  rw [escape_eq_self]
  refine ⟨fun plain => ⟨fun c mem => (plain c mem).1, fun c mem => ⟨?_, (plain c mem).2⟩⟩,
    fun ⟨solid, ordinary⟩ c mem => ⟨solid c mem, (ordinary c mem).2⟩⟩
  rintro rfl
  exact absurd (plain ' ' mem).1 (by decide)

/-! ### What is read for an argument -/

section
variable {path filename : Text}

/-- What is left of an argument in the flags that are stored under the path. -/
def kept (path argument : Text) : Flags := (flagsFromString (escape argument)).filter (· != path)

theorem kept_solid {argument : Text} (nonempty : argument ≠ []) (solid : ∀ c ∈ argument, isSpace c = false) :
    kept path argument = if escape argument = path then [] else [escape argument] := by
  unfold kept
  rw [flagsFromString_escape nonempty solid]
  split <;> simp [*]

theorem mem_kept {argument word : Text} (mem : word ∈ kept path argument) :
    word ≠ [] ∧ (∀ c ∈ word, isSpace c = false) ∧ word ≠ path := by
  obtain ⟨mem, other⟩ := List.mem_filter.mp mem
  exact ⟨(mem_words mem).1, (mem_words mem).2, bne_iff_ne.mp other⟩

theorem kept_eq_nil {argument : Text} :
    kept path argument = [] ↔ ∀ word ∈ flagsFromString (escape argument), word = path := by
  unfold kept
  rw [List.filter_eq_nil_iff]
  simp

theorem remain_cons {compiler word : Text} {others : Flags} {arguments : List Text}
    (read : flagsFromString (escape compiler) = word :: others) :
    Remain path filename compiler arguments ↔
      others.filter (· != path) ++ arguments.flatMap (kept path) = arguments.filter (· != filename) := by
  unfold Remain kept
  rw [List.flatMap_cons, read, List.cons_append, List.tail_cons, List.filter_append, List.filter_flatMap]

/-! ### Counting -/

def size (flags : Flags) : Nat := (flags.map List.length).sum

theorem size_append (xs ys : Flags) : size (xs ++ ys) = size xs + size ys := by
  unfold size
  rw [List.map_append, List.sum_append]

theorem size_cons (flag : Text) (flags : Flags) : size (flag :: flags) = flag.length + size flags := by
  unfold size
  rw [List.map_cons, List.sum_cons]

theorem eq_nil_of_size {flags : Flags} (nonempty : ∀ flag ∈ flags, flag ≠ []) (none : size flags = 0) :
    flags = [] := by
  cases flags with
  | nil => rfl
  | cons flag rest =>
    have positive := List.length_pos_iff.mpr (nonempty flag List.mem_cons_self)
    rw [size_cons] at none
    omega

theorem length_le_size {flag : Text} {flags : Flags} (mem : flag ∈ flags) : flag.length ≤ size flags := by
  induction flags with
  | nil => cases mem
  | cons first rest ih =>
    rw [size_cons]
    rcases List.mem_cons.mp mem with rfl | mem
    · exact Nat.le_add_right _ _
    · exact Nat.le_add_left_of_le (ih mem)

section
variable {arguments : List Text}
  (others : ∀ argument ∈ arguments, argument ≠ filename → kept path argument = [escape argument])
include others

theorem size_others : size (arguments.filter (· != filename)) ≤ size (arguments.flatMap (kept path)) := by
  induction arguments with
  | nil => exact Nat.le_refl 0
  | cons argument rest ih =>
    have rest_size := ih fun other mem => others other (List.mem_cons_of_mem _ mem)
    rw [List.flatMap_cons, size_append]
    by_cases own : argument = filename
    · rw [List.filter_cons_of_neg (by simpa using own)]
      omega
    · have longer := length_le_escape argument
      rw [List.filter_cons_of_pos (by simpa using own), others argument List.mem_cons_self own]
      rw [size_cons, size_cons]
      omega

theorem eq_of_size (same : size (arguments.flatMap (kept path)) ≤ size (arguments.filter (· != filename))) :
    ∀ argument ∈ arguments, if argument = filename then kept path argument =
      [] else escape argument = argument := by
  induction arguments with
  | nil => nofun
  | cons argument rest ih =>
    have others_rest := fun other mem => others other (List.mem_cons_of_mem _ mem)
    have rest_size := size_others others_rest
    rw [List.flatMap_cons, size_append] at same
    by_cases own : argument = filename
    · rw [List.filter_cons_of_neg (by simpa using own)] at same
      refine List.forall_mem_cons.mpr ⟨?_, ih others_rest (by omega)⟩
      rw [if_pos own]
      exact eq_nil_of_size (fun word mem => (mem_kept mem).1) (by omega)
    · have longer := length_le_escape argument
      rw [List.filter_cons_of_pos (by simpa using own), others argument List.mem_cons_self own] at same
      rw [size_cons, size_cons] at same
      refine List.forall_mem_cons.mpr ⟨?_, ih others_rest (by omega)⟩
      rw [if_neg own]
      exact ((sublist_escape argument).eq_of_length_le (by omega)).symm

end

theorem length_kept {arguments : List Text}
    (solid : ∀ argument ∈ arguments, argument ≠ filename → argument ≠ [] ∧ ∀ c ∈ argument, isSpace c = false)
    (own : filename ∈ arguments → kept path filename = []) :
    (arguments.flatMap (kept path)).length +
        arguments.countP (fun argument => argument ≠ filename ∧ escape argument = path) =
      (arguments.filter (· != filename)).length := by
  induction arguments with
  | nil => rfl
  | cons argument rest ih =>
    have rest_length := ih (fun other mem => solid other (List.mem_cons_of_mem _ mem))
      (fun mem => own (List.mem_cons_of_mem _ mem))
    rw [List.flatMap_cons, List.length_append, List.countP_cons]
    by_cases same : argument = filename
    · rw [List.filter_cons_of_neg (by simpa using same), same, own (by rw [same]; exact List.mem_cons_self)]
      simpa using rest_length
    · obtain ⟨nonempty, free⟩ := solid argument List.mem_cons_self same
      rw [List.filter_cons_of_pos (by simpa using same), kept_solid nonempty free, List.length_cons]
      by_cases taken : escape argument = path
      · rw [if_pos taken, if_pos (decide_eq_true ⟨same, taken⟩), List.length_nil]
        omega
      · rw [if_neg taken, if_neg (by simp [taken]), List.length_singleton]
        omega

/-! ### Where the mistakes do not make up for each other -/

/-- `path` is the file name, with a directory if it is relative. -/
def Spells (path filename : Text) : Prop := path = filename ∨ ∃ directory, path = directory ++ '/' :: filename

theorem escape_ne_path (spells : Spells path filename) {word : Text}
    (slashes : word.count '/' = filename.count '/')
    (long : filename.length ≤ word.length) (backslash : '\\' ∈ word) : escape word ≠ path := by
  rintro rfl
  rcases spells with same | ⟨directory, same⟩
  · have shorter : (escape word).length ≤ word.length := same ▸ long
    have plain := ((sublist_escape word).eq_of_length_le shorter).symm
    exact (escape_eq_self.mp plain _ backslash).2 rfl
  · have count := congrArg (List.count '/') same
    rw [count_escape (by decide), slashes, List.count_append, List.count_cons_self] at count
    omega

theorem kept_filename {arguments : List Text} (nonempty : ∀ argument ∈ arguments, argument ≠ [])
    (spells : Spells path filename) (solid_path : ∀ c ∈ path, isSpace c = false)
    (same : arguments.flatMap (kept path) = arguments.filter (· != filename)) (own : filename ∈ arguments) :
    kept path filename = [] := by
  have solid : ∀ c ∈ filename, isSpace c = false := by
    intro c mem
    refine solid_path c ?_
    rcases spells with rfl | ⟨directory, rfl⟩
    · exact mem
    · exact List.mem_append_right _ (List.mem_cons_of_mem _ mem)
  have listed {argument : Text} (mem : argument ∈ arguments) (other : escape argument ≠ path)
      (solid : ∀ c ∈ argument, isSpace c = false) : escape argument ∈ arguments.filter (· != filename) := by
    rw [← same]
    refine List.mem_flatMap.mpr ⟨argument, mem, ?_⟩
    rw [kept_solid (nonempty argument mem) solid, if_neg other]
    exact List.mem_singleton_self _
  by_contra some_left
  rw [kept_solid (nonempty filename own) solid] at some_left
  have other : escape filename ≠ path := fun taken => some_left (if_pos taken)
  have escaped := listed own other solid
  have backslash : '\\' ∈ filename := by
    by_contra none
    refine bne_iff_ne.mp (List.mem_filter.mp escaped).2 (escape_eq_self.mpr fun c mem => ⟨?_, ?_⟩)
    · rintro rfl
      exact absurd (solid ' ' mem) (by decide)
    · rintro rfl
      exact none mem
  -- escaped again and again, the file name would give arguments of any length
  have climb (n : Nat) : ∃ word ∈ arguments.filter (· != filename), n ≤ word.length ∧
      word.count '/' = filename.count '/' ∧ filename.length ≤ word.length ∧ '\\' ∈ word := by
    induction n with
    | zero => exact ⟨_, escaped, Nat.zero_le _, count_escape (by decide) _, length_le_escape _,
        (sublist_escape filename).subset backslash⟩
    | succ n ih =>
      obtain ⟨word, mem, long, slashes, longer, backslash⟩ := ih
      have solid_word : ∀ c ∈ word, isSpace c = false := by
        rw [← same] at mem
        obtain ⟨_, _, mem⟩ := List.mem_flatMap.mp mem
        exact (mem_kept mem).2.1
      have next := listed (List.mem_filter.mp mem).1
        (escape_ne_path spells slashes longer backslash) solid_word
      have growth : word.length < (escape word).length := by
        by_contra short
        have plain := ((sublist_escape word).eq_of_length_le (Nat.le_of_not_lt short)).symm
        exact (escape_eq_self.mp plain _ backslash).2 rfl
      have step := length_le_escape word
      exact ⟨_, next, by omega, (count_escape (by decide) word).trans slashes, by omega,
        (sublist_escape word).subset backslash⟩
  obtain ⟨word, mem, long, -⟩ := climb (size (arguments.filter (· != filename)) + 1)
  have short := length_le_size mem
  omega

theorem remain_of_decodable {compiler : Text} {arguments : List Text}
    (nonempty : ∀ argument ∈ arguments, argument ≠ [])
    (decodable : Decodable path filename compiler arguments) : Remain path filename compiler arguments := by
  obtain ⟨⟨word, others, read, single⟩, plain, own⟩ := decodable
  have none_left : others.filter (· != path) = [] := by simpa [List.filter_eq_nil_iff] using single
  rw [remain_cons read, none_left, List.nil_append]
  clear read single none_left
  induction arguments with
  | nil => rfl
  | cons argument rest ih =>
    have rest_same := ih (fun other mem => nonempty other (List.mem_cons_of_mem _ mem))
      (fun other mem => plain other (List.mem_cons_of_mem _ mem))
      (fun mem => own (List.mem_cons_of_mem _ mem))
    rw [List.flatMap_cons, rest_same]
    by_cases same : argument = filename
    · rw [List.filter_cons_of_neg (by simpa using same), same,
        kept_eq_nil.mpr (own (by rw [same]; exact List.mem_cons_self)), List.nil_append]
    · obtain ⟨plain, other⟩ := plain argument List.mem_cons_self same
      obtain ⟨solid, unescaped⟩ := plain_iff.mp plain
      rw [List.filter_cons_of_pos (by simpa using same),
        kept_solid (nonempty _ List.mem_cons_self) solid, unescaped, if_neg other, List.singleton_append]

/-- What is left is counted first, to see that no argument is taken for the path, and then measured: words only get
longer. -/
theorem decodable_of_remain {compiler : Text} {arguments : List Text}
    (nonempty : ∀ argument ∈ arguments, argument ≠ [])
    (spells : Spells path filename) (apart : ¬ Entangled path filename compiler arguments)
    (remain : Remain path filename compiler arguments) : Decodable path filename compiler arguments := by
  obtain ⟨some_word, single⟩ := not_or.mp apart
  obtain ⟨word, others, read⟩ := List.exists_cons_of_ne_nil some_word
  have same := (remain_cons read).mp remain
  rw [read, List.tail_cons] at single
  have left {argument : Text} (mem : argument ∈ arguments) (other : argument ≠ filename) :
      (∀ c ∈ argument, isSpace c = false) ∧ argument ≠ path := by
    have listed : argument ∈ arguments.filter (· != filename) :=
      List.mem_filter.mpr ⟨mem, bne_iff_ne.mpr other⟩
    rw [← same] at listed
    rcases List.mem_append.mp listed with listed | listed
    · obtain ⟨listed, other⟩ := List.mem_filter.mp listed
      have word_read : argument ∈ flagsFromString (escape compiler) := by
        rw [read]
        exact List.mem_cons_of_mem _ listed
      exact ⟨(mem_words word_read).2, bne_iff_ne.mp other⟩
    · obtain ⟨_, _, listed⟩ := List.mem_flatMap.mp listed
      exact (mem_kept listed).2
  have untaken : ∀ argument ∈ arguments, argument ≠ filename → escape argument ≠ path := by
    intro argument mem other taken
    have none_left : others.filter (· != path) = [] := by
      refine List.filter_eq_nil_iff.mpr fun word mem_word bad =>
        single ⟨⟨word, mem_word, bne_iff_ne.mp bad⟩, ?_⟩
      exact ⟨argument, mem, other, (left mem other).2, taken⟩
    rw [none_left, List.nil_append] at same
    have solid_path : ∀ c ∈ path, isSpace c = false := by
      intro c mem_path
      rw [← taken] at mem_path
      rcases mem_escape mem_path with mem_c | rfl
      · exact (left mem other).1 c mem_c
      · rfl
    have lengths := @length_kept path filename arguments
      (fun argument mem other => ⟨nonempty argument mem, (left mem other).1⟩)
      (kept_filename nonempty spells solid_path same)
    have counted : 0 < arguments.countP fun argument => argument ≠ filename ∧ escape argument = path :=
      List.countP_pos_iff.mpr ⟨argument, mem, decide_eq_true ⟨other, taken⟩⟩
    rw [same] at lengths
    omega
  have kept_others : ∀ argument ∈ arguments, argument ≠ filename →
    kept path argument = [escape argument] := by
    intro argument mem other
    rw [kept_solid (nonempty argument mem) (left mem other).1, if_neg (untaken argument mem other)]
  have sizes := congrArg size same
  rw [size_append] at sizes
  have least := size_others kept_others
  have unchanged := eq_of_size kept_others (by omega)
  have none_left : others.filter (· != path) = [] := by
    refine eq_nil_of_size (fun word mem => ?_) (by omega)
    have word_read : word ∈ flagsFromString (escape compiler) := by
      rw [read]
      exact List.mem_cons_of_mem _ (List.mem_filter.mp mem).1
    exact (mem_words word_read).1
  refine ⟨⟨word, others, read, by simpa [List.filter_eq_nil_iff] using none_left⟩,
    fun argument mem other => ⟨?_, ?_⟩,
    fun own => kept_eq_nil.mp ?_⟩
  · have plain := unchanged argument mem
    rw [if_neg other] at plain
    exact plain_iff.mpr ⟨(left mem other).1, plain⟩
  · exact (left mem other).2
  · simpa using unchanged filename own

end

theorem lookup_recorded {bitcode : List (List DICompileUnit)} {before after : List DICompileUnit}
    {unit : DICompileUnit} (extraFlags : Flags) (recorded : unit.flags ≠ [])
    (units : bitcode.flatten = before ++ unit :: after)
    (last : ∀ later ∈ after, later.flags ≠ [] →
      absoluteFilePath later.directory later.filename ≠ absoluteFilePath unit.directory unit.filename) :
    (createBitcodeFlags (getCompilationDatabase bitcode) extraFlags).lookup
        (absoluteFilePath unit.directory unit.filename) =
      some ((flagsFromString unit.flags).tail.filter (· != absoluteFilePath unit.directory unit.filename)
        ++ extraFlags) := by
  rw [lookup_createBitcodeFlags, lookup_getCompilationDatabase, units, List.filter_append,
    List.filter_cons_of_pos (by simpa using recorded), lastWith_append, lastWith_cons, if_pos rfl]
  have none : lastWith (fun unit => absoluteFilePath unit.directory unit.filename)
      (absoluteFilePath unit.directory unit.filename) (after.filter fun unit => !unit.flags.isEmpty) = none := by
    refine lastWith_eq_none.mpr fun later mem => ?_
    obtain ⟨mem, flagged⟩ := List.mem_filter.mp mem
    exact last later mem (by simpa using flagged)
  rw [none]
  rfl

theorem spells_absoluteFilePath (directory filename : Text) :
    Spells (absoluteFilePath directory filename) filename := by
  unfold absoluteFilePath
  split
  · exact .inr ⟨directory, rfl⟩
  · exact .inl rfl

/-- What the property says of the words that are read. -/
theorem decodesTo_remain {directory filename compiler : Text} (nonempty : compiler ≠ [])
    (arguments : List Text) :
    DecodesTo directory filename (compiler :: arguments) ↔
      Remain (absoluteFilePath directory filename) filename compiler arguments := by
  have recorded := recordCommandLine_ne_nil nonempty arguments
  unfold Remain
  rw [← flagsFromString_recordCommandLine]
  constructor
  · intro decodes
    have units :
        [[(⟨directory, filename, recordCommandLine (compiler :: arguments)⟩ : DICompileUnit)]].flatten =
          [] ++ [_] := rfl
    have stored := lookup_recorded [] recorded units nofun
    have claimed := decodes _ [] [] [] units nofun
    have same := Option.some.inj (stored.symm.trans claimed)
    rwa [List.append_nil, List.append_nil, List.tail_cons] at same
  · intro same bitcode before after extraFlags units last
    have stored := lookup_recorded extraFlags recorded units last
    rwa [same] at stored

/-- The flags of a command line are decoded where no word of it needs decoding, and only there unless two mistakes
can make up for each other. -/
theorem decodesTo_iff {directory filename compiler : Text} {arguments : List Text}
    (nonempty : ∀ argument ∈ compiler :: arguments, argument ≠ []) :
    (Decodable (absoluteFilePath directory filename) filename compiler arguments →
      DecodesTo directory filename (compiler :: arguments)) ∧
    (¬ Entangled (absoluteFilePath directory filename) filename compiler arguments →
      DecodesTo directory filename (compiler :: arguments) →
        Decodable (absoluteFilePath directory filename) filename compiler arguments) := by
  have nonempty_arguments := fun argument mem => nonempty argument (List.mem_cons_of_mem _ mem)
  rw [decodesTo_remain (nonempty compiler List.mem_cons_self)]
  constructor
  · exact remain_of_decodable nonempty_arguments
  · intro apart
    exact decodable_of_remain nonempty_arguments (spells_absoluteFilePath directory filename) apart

theorem decodesTo_plain : DecodesTo "/src".toList "/src/main.c".toList
    ["cc".toList, "-g".toList, "/src/main.c".toList] :=
  (decodesTo_iff (by decide)).1 ⟨⟨_, _, rfl, nofun⟩, by decide, by decide⟩

/-- A macro whose value has a blank in it becomes two arguments, and a file name stays if the path of the unit
has its directory in front. -/
theorem not_decodesTo : ¬ DecodesTo "/".toList "/f".toList ["cc".toList, "-DX=a b".toList] ∧
    ¬ DecodesTo "/src".toList "main.c".toList ["cc".toList, "-c".toList, "main.c".toList] := by
  constructor
  · intro decodes
    have claimed := decodes [[⟨_, _, _⟩]] [] [] [] rfl nofun
    revert claimed
    decide
  · intro decodes
    have claimed := decodes [[⟨_, _, _⟩]] [] [] [] rfl nofun
    revert claimed
    decide

end Mull.JunkDetection
