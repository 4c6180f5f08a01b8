import Monitor.Proofs.Attempt
import Monitor.Proofs.Breakpoint.OptionItems
import Monitor.Proofs.Numeral.Writing

namespace Monitor.Breakpoint

open Text Attempt

variable {files later : Files} {o o' : Options} {cs item path : List Char}
  {items : List (List Char)}

theorem argument?_of_read?_eq_file (h : OptionItem.read? item = some (.file path)) :
    argument? "file" item = some path := by
  unfold OptionItem.read? at h
  iterate 5
    split at h
    · cases h
  split at h
  · cases h
  · rename_i hfile
    cases h
    exact hfile
  · cases h
  · cases h

theorem argument?_eq_some_iff {keyword : String} : argument? keyword item = some path ↔
    ∃ tail, tail ≠ [] ∧ item = keyword.toList ++ ' ' :: tail ∧ path = trim tail := by
  rw [argument?]
  constructor
  · intro h
    split at h
    · rename_i hcond
      cases h
      rw [Bool.and_eq_true, List.isPrefixOf_iff_prefix, decide_eq_true_iff] at hcond
      obtain ⟨⟨tail, rfl⟩, hlength⟩ := hcond
      refine ⟨tail, ?_, List.append_assoc _ [' '] _, congrArg trim List.drop_left⟩
      rintro rfl
      rw [List.append_nil] at hlength
      exact Nat.lt_irrefl _ hlength
    · cases h
  · rintro ⟨tail, hne, rfl, rfl⟩
    rw [List.append_cons keyword.toList ' ' tail]
    generalize keyword.toList ++ [' '] = front
    rw [List.drop_left, if_pos]
    rw [Bool.and_eq_true, List.isPrefixOf_iff_prefix, decide_eq_true_iff, List.length_append]
    exact ⟨List.prefix_append _ _, Nat.lt_add_of_pos_right (List.length_pos_iff.2 hne)⟩

/-- An item ends in no blank, so what follows its keyword is not blank. -/
theorem argument?_ne_nil {keyword : String} (hitem : Solid item)
    (h : argument? keyword item = some path) : path ≠ [] := by
  obtain ⟨tail, hne, rfl, rfl⟩ := argument?_eq_some_iff.1 h
  intro hnil
  have hlast := hitem.last
  rw [List.append_cons, List.getLast?_append, List.getLast?_eq_some_getLast hne,
    Option.some_or] at hlast
  cases (isBlank_of_trim_eq_nil hnil _ (List.getLast_mem hne)).symm.trans hlast

theorem argument?_isInfix {keyword : String} (h : argument? keyword item = some path) :
    path <:+: item := by
  obtain ⟨tail, -, rfl, rfl⟩ := argument?_eq_some_iff.1 h
  rw [List.append_cons]
  exact (trim_isInfix tail).trans (List.suffix_append _ _).isInfix

theorem read?_file (hpath : Solid path) (hne : path ≠ []) :
    OptionItem.read? ("file".toList ++ ' ' :: path) = some (.file path) := by
  have hnot : ∀ word : String, word.toList.head? ≠ some 'f' →
      "file".toList ++ ' ' :: path ≠ word.toList :=
    fun word hword heq => hword (congrArg List.head? heq).symm
  have hinfo : argument? "info" ("file".toList ++ ' ' :: path) = none := rfl
  have hfile : argument? "file" ("file".toList ++ ' ' :: path) = some path :=
    argument?_eq_some_iff.2 ⟨path, hne, rfl, hpath.trim_eq.symm⟩
  rw [OptionItem.read?, if_neg (hnot _ (by decide)), if_neg (hnot _ (by decide)),
    if_neg (hnot _ (by decide)), if_neg (hnot _ (by decide)), if_neg (hnot _ (by decide)), hinfo,
    hfile]

theorem read?_digits (hne : item ≠ []) (h : ∀ c ∈ item, isAsciiDigit c = true) :
    OptionItem.read? item = some (.skip item) := by
  have hnot : ∀ text, text.all isAsciiDigit = false → item ≠ text := by
    rintro _ htext rfl
    cases (List.all_eq_true.2 h).symm.trans htext
  have hnone : ∀ keyword : String, argument? keyword item = none := by
    intro keyword
    refine Option.eq_none_iff_forall_ne_some.2 fun path hargument => ?_
    obtain ⟨tail, -, rfl, -⟩ := argument?_eq_some_iff.1 hargument
    cases h ' ' (List.mem_append_right _ List.mem_cons_self)
  have hdigits : item.takeWhile isAsciiDigit = item := List.takeWhile_eq_self_iff.2 h
  -- The words and what follows a keyword have characters that are no digits.
  rw [OptionItem.read?, if_neg (hnot _ rfl), if_neg (hnot _ rfl), if_neg (hnot _ rfl),
    if_neg (hnot _ rfl), if_neg (hnot _ rfl), hnone, hnone, hdigits]
  cases item with
  | nil => exact absurd rfl hne
  | cons c cs => rfl

theorem isAsciiDigit_of_mem_toDigits {n : Nat} {c : Char} (h : c ∈ Nat.toDigits 10 n) :
    isAsciiDigit c = true := by
  have hdigit : ∀ d < 10, isAsciiDigit (Nat.digitChar d) = true := by decide
  obtain ⟨d, hd, hc⟩ :=
    (isDigit_iff (by decide)).1 (isDigit_of_mem_toDigits (by decide) (by decide) h)
  rw [← isAsciiDigit_toLower, hc, hdigit d hd]

theorem isItem_digits (n : Nat) : IsItem (Nat.toDigits 10 n) := by
  have hblank : ∀ c ∈ Nat.toDigits 10 n, isBlank c = false := by
    intro c hc
    have hdigit := isAsciiDigit_iff.1 (isAsciiDigit_of_mem_toDigits hc)
    simp only [isBlank, Bool.or_eq_false_iff, Bool.and_eq_false_iff, decide_eq_false_iff_not,
      beq_eq_false_iff_ne]
    omega
  exact ⟨solid_of_forall hblank, whole_of_not_mem fun hspace => nomatch hblank _ hspace⟩

structure IsPath (files : Files) (path : String) : Prop where
  isItem : IsItem path.toList
  ne_nil : path.toList ≠ []
  exists_file : files.hasPath path = true

theorem IsPath.solid_file {path : String} (h : IsPath files path) :
    Solid ("file".toList ++ ' ' :: path.toList) where
  head := rfl
  last := by
    have hlast := h.isItem.solid.last
    rw [List.getLast?_eq_some_getLast h.ne_nil] at hlast
    rw [List.append_cons, List.getLast?_append, List.getLast?_eq_some_getLast h.ne_nil,
      Option.some_or, hlast]

theorem IsPath.isItem_file {path : String} (h : IsPath files path)
    (hcolon : path.toList.head? ≠ some ':') : IsItem ("file".toList ++ ' ' :: path.toList) where
  solid := h.solid_file
  whole := whole_append (by decide) (whole_cons_iff.2 ⟨fun _ => hcolon, h.isItem.whole⟩)

theorem isPath_of_argument? {keyword : String} (hitem : IsItem item)
    (h : argument? keyword item = some path) (hfile : files.hasPath (String.ofList path) = true) :
    IsPath files (String.ofList path) := by
  refine ⟨?_, ?_, hfile⟩
  · obtain ⟨tail, -, -, rfl⟩ := argument?_eq_some_iff.1 h
    rw [String.toList_ofList]
    exact ⟨solid_trim tail, hitem.whole.of_infix (argument?_isInfix h)⟩
  · rw [String.toList_ofList]
    exact argument?_ne_nil hitem.solid h

namespace Options

/-- What holds of all options that are read. -/
structure Consistent (files : Files) (o : Options) : Prop where
  skip : o.skip = 0 ∨ 2 ≤ o.skip ∧ o.skip < UInt32.size
  lock : o.lock = true → o.trace = true
  noinit : o.noinit = true → o.trace = true
  file : ∀ path, o.file = some path → IsPath files path

theorem Consistent.congr (h : Consistent files o)
    (hfiles : ∀ path, later.hasPath path = files.hasPath path) : Consistent later o where
  skip := h.skip
  lock := h.lock
  noinit := h.noinit
  file path hfile :=
    have hpath := h.file path hfile
    ⟨hpath.isItem, hpath.ne_nil, (hfiles path).trans hpath.exists_file⟩

theorem consistent_initial (files : Files) : Consistent files {} where
  skip := .inl rfl
  lock := nofun
  noinit := nofun
  file := nofun

theorem Consistent.of_trace (h : Consistent files o) (hskip : o'.skip = o.skip)
    (hfile : o'.file = o.file) (htrace : o'.trace = true) : Consistent files o' ∧ o' ≠ {} := by
  refine ⟨⟨hskip ▸ h.skip, fun _ => htrace, fun _ => htrace, hfile ▸ h.file⟩, ?_⟩
  rintro rfl
  cases htrace

theorem Consistent.add (h : Consistent files o) (hitem : IsItem item)
    (hadd : o.add files item = .ok o') : Consistent files o' ∧ o' ≠ {} := by
  rw [Options.add] at hadd
  -- One case for what is no option, and one for each kind of option.
  split at hadd
  · cases hadd
  · cases hadd
    exact ⟨⟨h.skip, h.lock, h.noinit, h.file⟩, fun heq => nomatch congrArg Options.once heq⟩
  · cases hadd
    exact ⟨⟨h.skip, h.lock, h.noinit, h.file⟩, fun heq => nomatch congrArg Options.quiet heq⟩
  · cases hadd
    exact h.of_trace rfl rfl rfl
  · cases hadd
    exact h.of_trace rfl rfl rfl
  · cases hadd
    exact h.of_trace rfl rfl rfl
  · split at hadd
    · cases hadd
      exact h.of_trace rfl rfl rfl
    · cases hadd
  · rename_i path hread
    split at hadd
    · rename_i hfile
      cases hadd
      refine ⟨⟨h.skip, h.lock, h.noinit, ?_⟩, fun heq => nomatch congrArg Options.file heq⟩
      rintro _ ⟨⟩
      exact isPath_of_argument? hitem (argument?_of_read?_eq_file hread) hfile
    · cases hadd
  · rename_i digits hread
    dsimp only at hadd
    split at hadd
    · rename_i hcount
      cases hadd
      rw [Bool.and_eq_true, decide_eq_true_iff, decide_eq_true_iff] at hcount
      refine ⟨⟨.inr hcount, h.lock, h.noinit, h.file⟩, fun heq => ?_⟩
      have hzero : ofDigits 10 digits = 0 := congrArg Options.skip heq
      omega
    · cases hadd

def addItem (files : Files) (o : Options) (item : List Char) : Except OptionsError Options :=
  o.add files (trim item)

theorem Consistent.addAll (h : Consistent files o ∧ o ≠ {}) (hitems : ∀ item ∈ items, Whole item)
    (hread : items.foldlM (addItem files) o = .ok o') :
    Consistent files o' ∧ o' ≠ {} := by
  induction items generalizing o with
  | nil =>
    cases hread
    exact h
  | cons item items ih =>
    obtain ⟨hitem, hitems⟩ := List.forall_mem_cons.1 hitems
    obtain ⟨next, hadd, hread⟩ := bind_eq_ok.1 hread
    exact ih (h.1.add hitem.isItem_trim hadd) hitems hread

theorem consistent_of_read (h : read files cs = .ok o) : Consistent files o ∧ o ≠ {} := by
  obtain ⟨first, more, heq, -, hfirst, hmore⟩ := exists_optionItems cs
  change (optionItems cs).foldlM (addItem files) {} = .ok o at h
  rw [heq] at h
  obtain ⟨next, hadd, hread⟩ := bind_eq_ok.1 h
  exact Consistent.addAll ((consistent_initial files).add hfirst.isItem_trim hadd) hmore hread

def written (p : Bool) (item : List Char) : List (List Char) :=
  if p then [item] else []

def listed (o : Options) : List (List Char) :=
  written (o.skip != 0) (Nat.toDigits 10 o.skip) ++ written o.once "once".toList ++
    written o.quiet "quiet".toList ++ written o.trace "trace".toList ++
    written (o.trace && o.lock) "lock".toList ++ written (o.trace && o.noinit) "noinit".toList ++
    o.file.toList.map fun path => "file".toList ++ ' ' :: path.toList

theorem flatMap_keep (p : Bool) (s : String) (item : List Char)
    (h : s.toList = ' ' :: ':' :: item) :
    (keep p s).flatMap String.toList = (written p item).flatMap fun item => ' ' :: ':' :: item := by
  cases p with
  | false => rfl
  | true =>
    rw [keep, written, if_pos rfl, if_pos rfl, List.flatMap_singleton, List.flatMap_singleton, h]

theorem toList_text (h : o.info = none) :
    o.text.toList = o.listed.flatMap fun item => ' ' :: ':' :: item := by
  have hskip : (s!" :{o.skip}").toList = ' ' :: ':' :: Nat.toDigits 10 o.skip := by
    rw [String.toList_append]
    exact congrArg (' ' :: ':' :: ·) String.toList_ofList
  have hfile : (o.file.toList.map (" :file " ++ ·)).flatMap String.toList =
      (o.file.toList.map fun path => "file".toList ++ ' ' :: path.toList).flatMap
        fun item => ' ' :: ':' :: item := by
    cases o.file with
    | none => rfl
    | some path =>
      rw [Option.toList_some, List.map_singleton, List.map_singleton, List.flatMap_singleton,
        List.flatMap_singleton, String.toList_append]
      rfl
  have hinfo : keep (o.trace && o.info.isSome) " :info" = [] := by
    rw [h, Option.isSome_none, Bool.and_false]
    rfl
  rw [text, listed, String.toList_join]
  simp only [List.flatMap_append, hinfo, hfile, flatMap_keep _ _ _ hskip,
    flatMap_keep _ " :once" "once".toList rfl, flatMap_keep _ " :quiet" "quiet".toList rfl,
    flatMap_keep _ " :trace" "trace".toList rfl, flatMap_keep _ " :lock" "lock".toList rfl,
    flatMap_keep _ " :noinit" "noinit".toList rfl, List.append_nil, List.append_assoc]

theorem written_eq_nil_iff {p : Bool} : written p item = [] ↔ p = false := by
  cases p with
  | false => exact iff_of_true rfl rfl
  | true => exact iff_of_false (List.cons_ne_nil _ _) nofun

theorem Consistent.listed_ne_nil (h : Consistent files o) (hinfo : o.info = none) (hne : o ≠ {}) :
    o.listed ≠ [] := by
  obtain ⟨-, hlock, hnoinit, -⟩ := h
  obtain ⟨skip, once, quiet, trace, lock, noinit, info, file⟩ := o
  cases hinfo
  intro hnil
  simp only [listed, List.append_eq_nil_iff, written_eq_nil_iff, List.map_eq_nil_iff,
    Option.toList_eq_nil_iff, bne_eq_false_iff_eq] at hnil
  obtain ⟨⟨⟨⟨⟨⟨rfl, rfl⟩, rfl⟩, rfl⟩, -⟩, -⟩, rfl⟩ := hnil
  cases lock with
  | true => cases hlock rfl
  | false =>
    cases noinit with
    | true => cases hnoinit rfl
    | false => exact hne rfl

theorem add_digits {n : Nat} (hlow : 2 ≤ n) (hhigh : n < UInt32.size) (files : Files)
    (o : Options) :
    o.add files (Nat.toDigits 10 n) = .ok { o with skip := n } := by
  rw [add, read?_digits Nat.toDigits_ne_nil fun c hc => isAsciiDigit_of_mem_toDigits hc]
  dsimp only
  rw [ofDigits_toDigits (by decide) (by decide), if_pos]
  exact Bool.and_eq_true_iff.2 ⟨decide_eq_true hlow, decide_eq_true hhigh⟩

theorem add_file {path : String} (h : IsPath files path) (o : Options) :
    o.add files ("file".toList ++ ' ' :: path.toList) = .ok { o with file := some path } := by
  rw [add, read?_file h.isItem.solid h.ne_nil]
  dsimp only
  rw [String.ofList_toList, if_pos h.exists_file]

theorem foldlM_written {p : Bool} {next : Options} (hitem : Solid item)
    (hadd : p = true → o.add files item = .ok next) (hleave : p = false → o = next) :
    (written p item).foldlM (addItem files) o = .ok next := by
  cases p with
  | false => exact congrArg Except.ok (hleave rfl)
  | true =>
    rw [written, if_pos rfl, List.foldlM_cons, addItem, hitem.trim_eq, hadd rfl]
    rfl

theorem Consistent.foldlM_file (h : Consistent files o) (start : Options)
    (hnone : start.file = none) :
    (o.file.toList.map fun path => "file".toList ++ ' ' :: path.toList).foldlM (addItem files)
      start = .ok { start with file := o.file } := by
  cases hfile : o.file with
  | none => exact congrArg (fun file => Except.ok { start with file }) hnone
  | some path =>
    have hpath := h.file path hfile
    rw [Option.toList_some, List.map_singleton, List.foldlM_cons, addItem,
      hpath.solid_file.trim_eq, add_file hpath]
    rfl

theorem Consistent.foldlM_listed (h : Consistent files o) (hinfo : o.info = none) :
    o.listed.foldlM (addItem files) {} = .ok o := by
  have hfile := h.foldlM_file
  obtain ⟨hcount, hlock, hnoinit, -⟩ := h
  obtain ⟨skip, once, quiet, trace, lock, noinit, info, file⟩ := o
  cases hinfo
  -- The fields come one by one, as the items follow each other.
  have hskip : (written (skip != 0) (Nat.toDigits 10 skip)).foldlM (addItem files) {} =
      .ok { skip } := by
    refine foldlM_written (isItem_digits skip).solid (fun hne => ?_) fun heq => ?_
    · obtain ⟨hlow, hhigh⟩ := hcount.resolve_left (bne_iff_ne.1 hne)
      exact add_digits hlow hhigh files {}
    · rw [bne_eq_false_iff_eq.1 heq]
  have honce : (written once "once".toList).foldlM (addItem files) { skip } =
      .ok { skip, once } :=
    foldlM_written ⟨rfl, rfl⟩ (by rintro rfl; rfl) (by rintro rfl; rfl)
  have hquiet : (written quiet "quiet".toList).foldlM (addItem files) { skip, once } =
      .ok { skip, once, quiet } :=
    foldlM_written ⟨rfl, rfl⟩ (by rintro rfl; rfl) (by rintro rfl; rfl)
  have htrace : (written trace "trace".toList).foldlM (addItem files) { skip, once, quiet } =
      .ok { skip, once, quiet, trace } :=
    foldlM_written ⟨rfl, rfl⟩ (by rintro rfl; rfl) (by rintro rfl; rfl)
  have hlock : (written (trace && lock) "lock".toList).foldlM (addItem files)
      { skip, once, quiet, trace } = .ok { skip, once, quiet, trace, lock } := by
    rw [show (trace && lock) = lock from Bool.and_eq_right_iff_imp.2 hlock]
    refine foldlM_written ⟨rfl, rfl⟩ ?_ (by rintro rfl; rfl)
    rintro rfl
    cases hlock rfl
    rfl
  have hnoinit : (written (trace && noinit) "noinit".toList).foldlM (addItem files)
      { skip, once, quiet, trace, lock } = .ok { skip, once, quiet, trace, lock, noinit } := by
    rw [show (trace && noinit) = noinit from Bool.and_eq_right_iff_imp.2 hnoinit]
    refine foldlM_written ⟨rfl, rfl⟩ ?_ (by rintro rfl; rfl)
    rintro rfl
    cases hnoinit rfl
    rfl
  rw [listed]
  simp only [List.foldlM_append, hskip, honce, hquiet, htrace, hlock, hnoinit, ok_bind]
  exact hfile _ rfl

theorem isItem_written {p : Bool} (h : p = true → IsItem item) :
    ∀ i ∈ written p item, IsItem i := by
  cases p with
  | false => exact List.forall_mem_nil _
  | true => exact List.forall_mem_singleton.2 (h rfl)

theorem isItem_word (word : String) (hsolid : Solid word.toList) (hblank : ' ' ∉ word.toList)
    (p : Bool) : ∀ i ∈ written p word.toList, IsItem i :=
  isItem_written fun _ => ⟨hsolid, whole_of_not_mem hblank⟩

theorem Consistent.isItem_listed (h : Consistent files o)
    (hcolon : ∀ path, o.file = some path → path.toList.head? ≠ some ':') :
    ∀ item ∈ o.listed, IsItem item := by
  simp only [listed, List.forall_mem_append]
  refine ⟨⟨⟨⟨⟨⟨isItem_written fun _ => isItem_digits o.skip, ?_⟩, ?_⟩, ?_⟩, ?_⟩, ?_⟩, ?_⟩
  · exact isItem_word "once" ⟨rfl, rfl⟩ (by decide) _
  · exact isItem_word "quiet" ⟨rfl, rfl⟩ (by decide) _
  · exact isItem_word "trace" ⟨rfl, rfl⟩ (by decide) _
  · exact isItem_word "lock" ⟨rfl, rfl⟩ (by decide) _
  · exact isItem_word "noinit" ⟨rfl, rfl⟩ (by decide) _
  · intro item hitem
    obtain ⟨path, hmem, rfl⟩ := List.mem_map.1 hitem
    have hpath : o.file = some path := Option.mem_toList.1 hmem
    exact (h.file path hpath).isItem_file (hcolon path hpath)

/-- Options that are read are listed by a space, a colon and a text that is read as the same
options, unless they have an info, which is listed without its name, or a path that starts with a
colon. Between the two readings files may change, as long as paths do not come or go. -/
theorem read_listed (h : read files cs = .ok o) (hinfo : o.info = none)
    (hcolon : ∀ path, o.file = some path → path.toList.head? ≠ some ':') :
    ∃ listed : String, o.text = " :" ++ listed ∧ ∀ later : Files,
      (∀ path, later.hasPath path = files.hasPath path) → read later listed.toList = .ok o := by
  obtain ⟨hconsistent, hne⟩ := consistent_of_read h
  cases hlisted : o.listed with
  | nil => exact absurd hlisted (hconsistent.listed_ne_nil hinfo hne)
  | cons first more =>
    have htext : o.text.toList =
        ' ' :: ':' :: (first ++ more.flatMap fun item => ' ' :: ':' :: item) := by
      rw [toList_text hinfo, hlisted]
      rfl
    refine ⟨String.ofList (first ++ more.flatMap fun item => ' ' :: ':' :: item), ?_, ?_⟩
    · rw [← String.toList_inj, htext, String.toList_append]
      exact congrArg (' ' :: ':' :: ·) String.toList_ofList.symm
    · intro later hlater
      have hitems := hconsistent.isItem_listed hcolon
      rw [hlisted] at hitems
      obtain ⟨hfirst, hmore⟩ := List.forall_mem_cons.1 hitems
      have hread := (hconsistent.congr hlater).foldlM_listed hinfo
      rw [hlisted] at hread
      rw [read, String.toList_ofList,
        optionItems_flatMap hfirst.whole fun item hitem => (hmore item hitem).whole]
      exact hread

theorem read_listed_path :
    let files : Files := { directories := [":"] }
    let o : Options := { skip := 7, trace := true, lock := true, file := some "./:" }
    read files "007x :lock :file  ./: ".toList = .ok o ∧
      ∃ listed : String, o.text = " :" ++ listed ∧ ∀ later : Files,
        (∀ path, later.hasPath path = files.hasPath path) → read later listed.toList = .ok o := by
  intro files o
  have hread : read files "007x :lock :file  ./: ".toList = .ok o := by rfl
  refine ⟨hread, read_listed hread rfl ?_⟩
  rintro _ ⟨⟩
  decide

end Options

end Monitor.Breakpoint
