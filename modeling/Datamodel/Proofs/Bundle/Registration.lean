import Datamodel.Proofs.Bundle.Descriptor

/-!
# Where a registration ends

A call that registers a module is closed by the parenthesis that belongs to its opening, but a value
is not looked for with that in mind. What the call tells is told whatever follows it. Of a key
without a value there, the first value counts that is closed behind the call, whatever it is the
value of. So the name and the version come from the call itself only where it tells both, and then
nothing that follows can change them.
-/

namespace Datamodel

/-- What follows the parenthesis that closes a call, from a place inside the call. Parentheses
between single quotes do not count, and there a backslash takes the next character with it. -/
def afterCall? : (depth : Nat) → (quoted : Bool) → List Char → Option (List Char)
  | _, _, [] => none
  | depth, true, '\\' :: _ :: s => afterCall? depth true s
  | depth, true, c :: s => afterCall? depth (c != '\'') s
  | depth, false, '\'' :: s => afterCall? depth true s
  | depth, false, '(' :: s => afterCall? (depth + 1) false s
  | 0, false, ')' :: s => some s
  | depth + 1, false, ')' :: s => afterCall? depth false s
  | depth, false, _ :: s => afterCall? depth false s

/-- Whether a text ends where a call that registers a module is closed. -/
def ClosesRegistration (source : List Char) : Prop :=
  ∃ before call, source = before ++ registration ++ call ∧ afterCall? 0 false call = some []

theorem suffix_of_afterCall? {depth : Nat} {quoted : Bool} {s rest : List Char}
    (h : afterCall? depth quoted s = some rest) : ')' :: rest <:+ s := by
  fun_induction afterCall? depth quoted s with
  | case1 => contradiction
  | case2 depth c s ih =>
    exact (ih h).trans ((List.suffix_cons c s).trans (List.suffix_cons '\\' (c :: s)))
  | case3 depth c s _ ih => exact (ih h).trans (List.suffix_cons c s)
  | case4 depth s ih => exact (ih h).trans (List.suffix_cons '\'' s)
  | case5 depth s ih => exact (ih h).trans (List.suffix_cons '(' s)
  | case6 s =>
    obtain rfl := Option.some.inj h
    exact List.suffix_rfl
  | case7 depth s ih => exact (ih h).trans (List.suffix_cons ')' s)
  | case8 depth c s _ _ _ _ ih => exact (ih h).trans (List.suffix_cons c s)

theorem ClosesRegistration.infix {source : List Char} (h : ClosesRegistration source) :
    registration <:+: source := by
  obtain ⟨before, call, rfl, -⟩ := h
  exact ⟨before, call, rfl⟩

theorem ClosesRegistration.ends {source : List Char} (h : ClosesRegistration source) :
    ∃ front, source = front ++ [')'] := by
  obtain ⟨before, call, rfl, hcall⟩ := h
  obtain ⟨inside, rfl⟩ := suffix_of_afterCall? hcall
  exact ⟨before ++ registration ++ inside, by simp⟩

/-- What is at the end of a text reaches back to a character of it or stands behind that
character. -/
theorem mem_or_suffix {c : Char} {s front back : List Char} (h : s <:+ front ++ c :: back) :
    c ∈ s ∨ s <:+ back := by
  rcases List.suffix_or_suffix_of_suffix h (List.suffix_append front (c :: back)) with hs | hs
  · rcases List.suffix_cons_iff.1 hs with rfl | hs
    · exact .inl List.mem_cons_self
    · exact .inr hs
  · exact .inl (hs.mem List.mem_cons_self)

namespace RegistrationKey

variable {key : RegistrationKey} {source before body rest value : List Char}

theorem exists_registers (h : registration <:+: source) :
    ∃ before body, Registers source before body := by
  obtain ⟨front, back, rfl⟩ := h
  obtain ⟨⟨before, body⟩, hcut, -⟩ := Text.exists_cutAt registration front back
  obtain ⟨heq, hfirst⟩ := Text.cutAt_eq_some_iff.1 hcut
  exact ⟨before, body, heq, hfirst⟩

theorem Registers.append (h : Registers source before body) (rest : List Char) :
    Registers (source ++ rest) before (body ++ rest) := by
  have hwhole := h.replace (body ++ rest)
  rwa [← List.append_assoc, ← h.eq] at hwhole

theorem Registers.of_append (h : Registers (source ++ rest) before (body ++ rest)) :
    Registers source before body where
  eq := by
    have heq := h.eq
    rw [← List.append_assoc] at heq
    exact List.append_cancel_right heq
  first front back hback := h.first front (back ++ rest) (by rw [hback, List.append_assoc])

theorem Tells.suffix {text : List Char} (h : key.Tells text value) : value <:+ text := by
  obtain @⟨blanks, gap, value, -, -, -, -⟩ := h
  exact List.suffix_append _ value

/-! ### What a call tells -/

theorem find?_append (h : key = label ∨ key = version) (hvalue : key.find? source = some value)
    (rest : List Char) : key.find? (source ++ rest) = some value := by
  obtain ⟨before, body, hsource, hbody⟩ := find?_eq_some_iff.1 hvalue
  obtain ⟨front, text, after, hfirst⟩ := (firstValue?_eq_some_iff h).1 hbody
  have hlater := hfirst.replace (after ++ rest)
  have heq : body ++ rest = front ++ text ++ '\'' :: (after ++ rest) := by
    rw [hfirst.eq, List.append_assoc, List.cons_append]
  rw [(hsource.append rest).find?_eq, heq]
  exact (firstValue?_eq_some_iff h).2 ⟨front, text, after ++ rest, hlater⟩

/-! ### What is told behind it -/

/-- What has no value in a text has one in a longer text only if that is closed behind the text. -/
theorem closed_behind (h : key = label ∨ key = version) (hnone : key.find? source = none)
    {front text after : List Char} (hsource : Registers (source ++ rest) before body)
    (htold : key.Told body front text value after) : '\'' :: after <:+ rest := by
  have hclosed : '\'' :: after <:+ source ++ rest :=
    ⟨before ++ registration ++ (front ++ text), by rw [hsource.eq, htold.eq]; simp⟩
  rcases List.suffix_or_suffix_of_suffix hclosed (List.suffix_append source rest) with hbehind
    | hinside
  · exact hbehind
  · rcases List.suffix_cons_iff.1 hinside with rfl | hinside
    · exact List.suffix_rfl
    · obtain ⟨kept, rfl⟩ := hinside
      have heq : body = front ++ text ++ '\'' :: kept ++ rest := by
        rw [htold.eq, List.append_assoc _ _ rest, List.cons_append]
      rw [heq] at hsource
      obtain ⟨found, hfound⟩ := exists_firstValue?_of_told h ⟨rfl, htold.tells⟩
      rw [hsource.of_append.find?_eq, hfound] at hnone
      contradiction

/-- A value that a closed call does not tell goes over its parenthesis or is read behind it. -/
theorem mem_or_infix_of_behind (h : key = label ∨ key = version)
    (hclosed : ClosesRegistration source) (hnone : key.find? source = none)
    (hvalue : key.find? (source ++ rest) = some value) : ')' ∈ value ∨ value <:+: rest := by
  obtain ⟨before, body, hsource, hbody⟩ := find?_eq_some_iff.1 hvalue
  obtain ⟨front, text, after, hfirst⟩ := (firstValue?_eq_some_iff h).1 hbody
  obtain ⟨inside, rfl⟩ := closed_behind h hnone hsource hfirst.toTold
  obtain ⟨call, rfl⟩ := hclosed.ends
  have hends : value <:+ call ++ ')' :: inside := by
    have heq := hsource.eq
    rw [hfirst.eq] at heq
    have hfront : call ++ ')' :: inside = before ++ registration ++ front ++ text := by
      have hwhole : call ++ ')' :: inside ++ '\'' :: after =
          before ++ registration ++ front ++ text ++ '\'' :: after := by
        simpa using heq
      exact List.append_cancel_right hwhole
    obtain ⟨key, hkey⟩ := hfirst.tells.suffix
    exact ⟨before ++ registration ++ front ++ key, by rw [hfront, ← hkey, List.append_assoc _ key]⟩
  rcases mem_or_suffix hends with hmem | hsuffix
  · exact .inl hmem
  · exact .inr (hsuffix.isInfix.trans (List.prefix_append inside ('\'' :: after)).isInfix)

/-- A text that tells the value `x` of a key. -/
def sample (key : RegistrationKey) : List Char :=
  key.key ++ "=>".toList ++ key.opening ++ ['x', '\'']

theorem exists_find?_sample (h : key = label ∨ key = version) (hsource : registration <:+: source) :
    ∃ value, key.find? (source ++ key.sample) = some value := by
  obtain ⟨before, body, hregisters⟩ := exists_registers hsource
  have htells : key.Tells (key.key ++ [] ++ "=>".toList ++ [] ++ key.opening ++ ['x']) ['x'] :=
    .intro (by simp) (by simp) (by decide) (by decide)
  have htold : key.Told (body ++ key.sample) body _ ['x'] [] := ⟨by simp [sample], htells⟩
  rw [(hregisters.append key.sample).find?_eq]
  exact exists_firstValue?_of_told h htold

/-- What can be told behind a closed call is told there, unless the call tells it. -/
theorem exists_find?_of_unchanged (h : key = label ∨ key = version)
    (hclosed : ClosesRegistration source) (placeholder : String)
    (hparenthesis : ')' ∉ placeholder.toList) (hsample : ¬placeholder.toList <:+: key.sample)
    (hsame : ((key.find? (source ++ key.sample)).map String.ofList).getD placeholder =
      ((key.find? source).map String.ofList).getD placeholder) :
    ∃ value, key.find? source = some value := by
  by_contra hnot
  have hnone : key.find? source = none := Option.eq_none_iff_forall_ne_some.2 (not_exists.1 hnot)
  obtain ⟨value, hvalue⟩ := exists_find?_sample h hclosed.infix
  rw [hvalue, hnone, Option.map_some, Option.getD_some, Option.map_none, Option.getD_none] at hsame
  subst hsame
  rw [String.toList_ofList] at hparenthesis hsample
  exact (mem_or_infix_of_behind h hclosed hnone hvalue).elim hparenthesis hsample

end RegistrationKey

namespace ModuleDescriptor

open RegistrationKey (label Registers FirstTold)

variable {source : List Char}

/-- What a call that registers a module tells is told whatever follows the call. What it does not
tell is read from a place that is closed behind the call, if there is one. So all that may follow
without another registration makes no difference exactly where the call tells both the name and the
version. -/
theorem parse_continued (h : ClosesRegistration source) :
    (∀ key, key = label ∨ key = RegistrationKey.version → ∀ value, key.find? source = some value →
      ∀ rest, key.find? (source ++ rest) = some value) ∧
    (∀ key, key = label ∨ key = RegistrationKey.version → key.find? source = none →
      ∀ rest value, key.find? (source ++ rest) = some value →
        (∃ before body front text after, Registers (source ++ rest) before body ∧
          key.FirstTold body front text value after ∧ '\'' :: after <:+ rest) ∧
        (')' ∈ value ∨ value <:+: rest)) ∧
    ((∀ first second, ¬registration <:+: first → ¬registration <:+: second →
        parse (source ++ first) = parse (source ++ second)) ↔
      (∃ name, label.find? source = some name) ∧
      ∃ number, RegistrationKey.version.find? source = some number) := by
  refine ⟨fun key hkey value hvalue => RegistrationKey.find?_append hkey hvalue, ?_, ?_, ?_⟩
  · intro key hkey hnone rest value hvalue
    obtain ⟨before, body, hregisters, hbody⟩ := RegistrationKey.find?_eq_some_iff.1 hvalue
    obtain ⟨front, text, after, hfirst⟩ := (RegistrationKey.firstValue?_eq_some_iff hkey).1 hbody
    refine ⟨⟨before, body, front, text, after, hregisters, hfirst, ?_⟩, ?_⟩
    · exact RegistrationKey.closed_behind hkey hnone hregisters hfirst.toTold
    · exact RegistrationKey.mem_or_infix_of_behind hkey h hnone hvalue
  · intro hsame
    have hunchanged (rest : List Char) (hrest : ¬registration <:+: rest) :
        parse (source ++ rest) = parse source := by
      have hnothing := hsame rest [] hrest (by decide +kernel)
      rwa [List.append_nil] at hnothing
    have hname := hunchanged label.sample (by decide +kernel)
    have hnumber := hunchanged RegistrationKey.version.sample (by decide +kernel)
    constructor
    · exact RegistrationKey.exists_find?_of_unchanged (.inl rfl) h unknown.name (by decide +kernel)
        (by decide +kernel) (congrArg ModuleDescriptor.name hname)
    · exact RegistrationKey.exists_find?_of_unchanged (.inr rfl) h unknown.version
        (by decide +kernel) (by decide +kernel) (congrArg ModuleDescriptor.version hnumber)
  · rintro ⟨⟨name, hname⟩, number, hnumber⟩ first second - -
    have hparse (rest : List Char) :
        parse (source ++ rest) = ⟨String.ofList name, String.ofList number⟩ := by
      rw [parse, RegistrationKey.find?_append (.inl rfl) hname,
        RegistrationKey.find?_append (.inr rfl) hnumber]
      rfl
    rw [hparse, hparse]

def versioned : List Char :=
  "<?php SetupWebPage::AddModule(__FILE__, 'a)/1', ".toList ++
    "array('label' => Dict::S('A'), 'version' => '1'))".toList

theorem parse_continued_versioned :
    ClosesRegistration versioned ∧ ∀ first second, ¬registration <:+: first →
      ¬registration <:+: second →
      parse (versioned ++ first) = parse (versioned ++ second) := by
  have hclosed : ClosesRegistration versioned :=
    ⟨"<?php ".toList,
      "__FILE__, 'a)/1', array('label' => Dict::S('A'), 'version' => '1'))".toList,
      by decide +kernel, by decide +kernel⟩
  have hname : label.find? versioned = some "A".toList := by decide +kernel
  have hnumber : RegistrationKey.version.find? versioned = some "1".toList := by decide +kernel
  exact ⟨hclosed, (parse_continued hclosed).2.2.2 ⟨⟨_, hname⟩, _, hnumber⟩⟩

def unversioned : List Char :=
  "<?php SetupWebPage::AddModule(__FILE__, 'server/1.0', ".toList ++
    "array('label' => Dict::S('Server')))".toList

def defaultSettings : List Char :=
  "; $defaults = array('version' => '9.9');".toList

/-- The version of an array that registers nothing is reported for a module without one. -/
theorem parse_unversioned :
    ClosesRegistration unversioned ∧ ¬registration <:+: [';'] ∧ ¬registration <:+: defaultSettings ∧
      parse (unversioned ++ [';']) = ⟨"Server", unknown.version⟩ ∧
      parse (unversioned ++ defaultSettings) = ⟨"Server", "9.9"⟩ := by
  refine ⟨⟨"<?php ".toList, "__FILE__, 'server/1.0', array('label' => Dict::S('Server')))".toList,
    ?_, ?_⟩, ?_, ?_, ?_, ?_⟩
  all_goals decide +kernel

end ModuleDescriptor

end Datamodel
