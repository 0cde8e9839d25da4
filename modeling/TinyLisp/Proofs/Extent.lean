import TinyLisp.Proofs.Grammar

/-!
# Where an expression ends

The reader keeps every open list with its items. To find out where an
expression ends, or why there is none, a number is enough: the count of the
lists that are open (`Token.level`), which an opening parenthesis raises and a
closing one lowers, beside a look at each word on the way.

`Finding` says what such a count finds, in one pass over the tokens. The count
always finds something (`exists_finding`) and the reader ends as it says
(`Finding.parse_eq`), so the two agree. The headline is
`reader_ends_as_counted`: how far an expression goes, and which of several
faults is reported, in terms of the count alone.
-/

namespace TinyLisp

namespace Token

/-! ## Counting open lists -/

/-- What a token does to the count of open lists. -/
def tick (level : Int) : Token → Int
  | .opening => level + 1
  | .closing => level - 1
  | .word _ => level

/-- The count of open lists after the tokens, from left to right. -/
def level (ts : List Token) : Int := ts.foldl tick 0

theorem level_concat (ts : List Token) (t : Token) : level (ts ++ [t]) = tick (level ts) t := by
  rw [level, List.foldl_append]
  rfl

/-- A list is open after each of the tokens. -/
def StaysOpen (ts : List Token) : Prop := ∀ q, q <+: ts → q ≠ [] → 0 < level q

/-- Each word among the tokens is an atom. -/
def Readable (ts : List Token) : Prop := ∀ text, .word text ∈ ts → ∃ e, readAtom text = .ok e

/-- The tokens are one expression as far as a count can tell: the lists that
were opened are closed at the end and not before. -/
structure IsExtent (p : List Token) : Prop where
  ne_nil : p ≠ []
  head_ne : p.head? ≠ some .closing
  readable : Readable p
  level_eq : level p = 0
  inner : ∀ q, q <+: p → q ≠ [] → q ≠ p → 0 < level q

/-- As far as an expression goes on and its words can be read, no more lists
are open at once than the limit says. -/
def NestsWithin (limit : Nat) (ts : List Token) : Prop :=
  ∀ q, q <+: ts → StaysOpen q → Readable q → level q ≤ limit

theorem staysOpen_concat {ts : List Token} {t : Token} :
    StaysOpen (ts ++ [t]) ↔ StaysOpen ts ∧ 0 < level (ts ++ [t]) := by
  constructor
  · intro h
    have hlast := h (ts ++ [t]) List.prefix_rfl (by simp)
    exact ⟨fun q hq hne => h q (hq.trans (List.prefix_append ..)) hne, hlast⟩
  · rintro ⟨h, hlast⟩ q hq hne
    rcases List.prefix_concat_iff.mp hq with rfl | hq
    · exact hlast
    · exact h q hq hne

theorem readable_concat {ts : List Token} {t : Token} :
    Readable (ts ++ [t]) ↔
      Readable ts ∧ ∀ text, t = .word text → ∃ e, readAtom text = .ok e := by
  constructor
  · intro h
    exact ⟨fun text htext => h text (List.mem_append_left _ htext),
      fun text ht => h text (List.mem_append_right _ (ht ▸ List.mem_singleton_self _))⟩
  · rintro ⟨hts, ht⟩ text htext
    rcases List.mem_append.mp htext with hmem | hmem
    · exact hts text hmem
    · exact ht text (List.mem_singleton.mp hmem).symm

theorem StaysOpen.of_prefix {p q : List Token} (h : StaysOpen q) (hp : p <+: q) : StaysOpen p :=
  fun r hr => h r (hr.trans hp)

theorem Readable.of_prefix {p q : List Token} (h : Readable q) (hp : p <+: q) : Readable p :=
  fun text htext => h text (hp.subset htext)

/-! ## The reader beside the count -/

/-- After these tokens the reader goes on: a list is open, all words could be
read, and the limit was kept. -/
structure OpenTo (limit : Nat) (ts : List Token) : Prop where
  staysOpen : StaysOpen ts
  readable : Readable ts
  within : ∀ q, q <+: ts → level q ≤ limit

theorem openTo_nil (limit : Nat) : OpenTo limit [] where
  staysOpen q hq hne := absurd (List.prefix_nil.mp hq) hne
  readable _ htext := absurd htext List.not_mem_nil
  within q hq := by
    rw [List.prefix_nil.mp hq]
    exact Int.natCast_nonneg limit

theorem openTo_concat {limit : Nat} {ts : List Token} {t : Token} :
    OpenTo limit (ts ++ [t]) ↔
      OpenTo limit ts ∧ 0 < level (ts ++ [t]) ∧ level (ts ++ [t]) ≤ limit
        ∧ ∀ text, t = .word text → ∃ e, readAtom text = .ok e := by
  constructor
  · rintro ⟨hopen, hread, hwithin⟩
    obtain ⟨hopen, hlast⟩ := staysOpen_concat.mp hopen
    obtain ⟨hread, ht⟩ := readable_concat.mp hread
    exact ⟨⟨hopen, hread, fun q hq => hwithin q (hq.trans (List.prefix_append ..))⟩, hlast,
      hwithin _ List.prefix_rfl, ht⟩
  · rintro ⟨⟨hopen, hread, hwithin⟩, hlast, hle, ht⟩
    refine ⟨staysOpen_concat.mpr ⟨hopen, hlast⟩, readable_concat.mpr ⟨hread, ht⟩, ?_⟩
    intro q hq
    rcases List.prefix_concat_iff.mp hq with rfl | hq
    · exact hle
    · exact hwithin q hq

/-- As long as the count goes on, so does the reader: with as many lists on its
stack as are counted, and with room for the others up to the limit. By induction
on the tokens from the end. -/
theorem OpenTo.parse_append {limit : Nat} {ts : List Token} (h : OpenTo limit ts)
    (hne : ts ≠ []) :
    ∃ (room : Nat) (items : List Expr) (outer : List (List Expr)),
      room + level ts = limit ∧ outer.length + 1 = level ts
      ∧ ∀ rest, parse limit (ts ++ rest) = readList room items outer rest := by
  induction ts using List.reverseRecOn with
  | nil => exact absurd rfl hne
  | append_singleton ts t ih =>
      obtain ⟨hts, hpos, hle, hword⟩ := openTo_concat.mp h
      rw [level_concat] at hpos hle ⊢
      by_cases hempty : ts = []
      · -- only an opening parenthesis makes a start
        subst hempty
        cases t with
        | opening =>
            obtain ⟨room, rfl⟩ : ∃ room, limit = room + 1 := by
              cases limit with
              | zero => exact absurd hle (by decide)
              | succ room => exact ⟨room, rfl⟩
            exact ⟨room, [], [], by simp [tick, level], by simp [tick, level], fun _ => rfl⟩
        | closing => exact absurd hpos (by decide)
        | word text => exact absurd hpos (Int.lt_irrefl 0)
      · obtain ⟨room, items, outer, hroom, houter, hparse⟩ := ih hts hempty
        have hnext : ∀ rest, parse limit (ts ++ [t] ++ rest)
            = readList room items outer (t :: rest) := by
          intro rest
          rw [List.append_assoc]
          exact hparse (t :: rest)
        cases t with
        | opening =>
            simp only [tick] at hpos hle ⊢
            obtain ⟨room, rfl⟩ : ∃ n, room = n + 1 := ⟨room - 1, by omega⟩
            refine ⟨room, [], items :: outer, by omega, ?_, fun rest => ?_⟩
            · rw [List.length_cons]
              omega
            · rw [hnext, readList]
        | closing =>
            simp only [tick] at hpos hle ⊢
            cases outer with
            | nil =>
                rw [List.length_nil] at houter
                omega
            | cons above outer =>
                rw [List.length_cons] at houter
                refine ⟨room + 1, .list items.reverse :: above, outer, by omega, by omega,
                  fun rest => ?_⟩
                rw [hnext, readList]
        | word text =>
            obtain ⟨atom, hatom⟩ := hword text rfl
            refine ⟨room, atom :: items, outer, hroom, houter, fun rest => ?_⟩
            rw [hnext, readList, hatom]

/-! ## What the count finds -/

/-- How a count of open lists ends, with the tokens left behind an expression or
the reason why there is none. -/
inductive Finding (limit : Nat) : List Token → Except Stop (List Token) → Prop where
  | nothing : Finding limit [] (.error ReadFault.endOfText.stop)
  | stray (rest : List Token) : Finding limit (.closing :: rest) (.error ReadFault.strayClose.stop)
  | extent {p : List Token} (hp : IsExtent p) (hwithin : ∀ q, q <+: p → level q ≤ limit)
      (rest : List Token) : Finding limit (p ++ rest) (.ok rest)
  /-- A word is no atom, and the expression did not end before it. -/
  | rejected {before : List Token} {text : String} {reason : Stop} (h : OpenTo limit before)
      (hatom : readAtom text = .error reason) (rest : List Token) :
      Finding limit (before ++ .word text :: rest) (.error reason)
  | unclosed {ts : List Token} (hne : ts ≠ []) (h : OpenTo limit ts) :
      Finding limit ts (.error ReadFault.unclosedList.stop)
  | tooDeep {before : List Token} (h : OpenTo limit before) (hlevel : level before = limit)
      (rest : List Token) :
      Finding limit (before ++ .opening :: rest) (.error (.fault (.nesting "read")))

theorem isExtent_word {text : String} {e : Expr} (h : readAtom text = .ok e) :
    IsExtent [.word text] where
  ne_nil := List.cons_ne_nil _ _
  head_ne := nofun
  readable other hother := by
    cases List.mem_singleton.mp hother
    exact ⟨e, h⟩
  level_eq := rfl
  inner q hq hne hproper := by
    rcases List.prefix_concat_iff.mp (show q <+: [] ++ [.word text] from hq) with rfl | hq
    · exact absurd rfl hproper
    · exact absurd (List.prefix_nil.mp hq) hne

/-- No extent starts with a shorter one. -/
theorem IsExtent.prefix_of_isExtent {p q ts : List Token} (hp : IsExtent p) (hq : IsExtent q)
    (hpts : p <+: ts) (hqts : q <+: ts) : p <+: q := by
  rcases List.prefix_or_prefix_of_prefix hpts hqts with hpq | hqp
  · exact hpq
  · by_cases heq : q = p
    · rw [heq]
    · have hpos := hp.inner q hqp hq.ne_nil heq
      rw [hq.level_eq] at hpos
      exact absurd hpos (Int.lt_irrefl 0)

theorem StaysOpen.head_ne {ts : List Token} (h : StaysOpen ts) : ts.head? ≠ some .closing := by
  intro hhead
  obtain ⟨rest, rfl⟩ := List.head?_eq_some_iff.mp hhead
  have hfirst := h [.closing] (List.prefix_append [_] rest) (List.cons_ne_nil _ _)
  exact absurd hfirst (by decide)

theorem isExtent_concat {limit : Nat} {ts : List Token} (h : OpenTo limit ts) (hne : ts ≠ [])
    (hlevel : level ts = 1) : IsExtent (ts ++ [.closing]) where
  ne_nil := by simp
  head_ne := by
    rw [List.head?_append_of_ne_nil _ hne]
    exact h.staysOpen.head_ne
  readable := readable_concat.mpr ⟨h.readable, fun _ => nofun⟩
  level_eq := by
    rw [level_concat, hlevel]
    rfl
  inner q hq hqne hproper := by
    rcases List.prefix_concat_iff.mp hq with rfl | hq
    · exact absurd rfl hproper
    · exact h.staysOpen q hq hqne

/-- An extent is one word, or tokens that stay open and the closing parenthesis
of the outermost list. -/
theorem IsExtent.cases {limit : Nat} {p : List Token} (hp : IsExtent p)
    (hwithin : ∀ q, q <+: p → level q ≤ limit) :
    (∃ text e, p = [.word text] ∧ readAtom text = .ok e)
      ∨ ∃ ts, p = ts ++ [.closing] ∧ ts ≠ [] ∧ OpenTo limit ts ∧ level ts = 1 := by
  obtain ⟨ts, t, rfl⟩ := List.eq_nil_or_concat' p |>.resolve_left hp.ne_nil
  have hlevel := hp.level_eq
  rw [level_concat] at hlevel
  have hopen : OpenTo limit ts := by
    refine ⟨fun q hq hne => ?_, (readable_concat.mp hp.readable).1,
      fun q hq => hwithin q (hq.trans (List.prefix_append ..))⟩
    refine hp.inner q (hq.trans (List.prefix_append ..)) hne ?_
    rintro rfl
    simpa using hq.length_le
  by_cases hempty : ts = []
  · subst hempty
    cases t with
    | opening | closing => exact absurd hlevel (by decide)
    | word text =>
        obtain ⟨e, he⟩ := hp.readable text (List.mem_singleton_self _)
        exact Or.inl ⟨text, e, rfl, he⟩
  · have hpos := hopen.staysOpen ts List.prefix_rfl hempty
    cases t with
    | closing =>
        simp only [tick] at hlevel
        exact Or.inr ⟨ts, rfl, hempty, hopen, by omega⟩
    | opening | word =>
        simp only [tick] at hlevel
        omega

theorem Finding.parse_eq {limit : Nat} {ts : List Token} {r : Except Stop (List Token)}
    (h : Finding limit ts r) : Prod.snd <$> parse limit ts = r := by
  cases h with
  | nothing => rfl
  | stray rest => rfl
  | extent hp hwithin rest =>
      rcases hp.cases hwithin with ⟨text, e, rfl, he⟩ | ⟨ts, rfl, hne, hopen, hlevel⟩
      · show Prod.snd <$> parse limit (.word text :: rest) = _
        rw [parse, he]
        rfl
      · obtain ⟨room, items, outer, -, houter, hparse⟩ := hopen.parse_append hne
        obtain rfl : outer = [] := List.length_eq_zero_iff.mp (by omega)
        rw [List.append_assoc, hparse, List.singleton_append, readList]
        rfl
  | @rejected before text reason hopen hatom rest =>
      by_cases hempty : before = []
      · subst hempty
        rw [List.nil_append, parse, hatom]
        rfl
      · obtain ⟨room, items, outer, -, -, hparse⟩ := hopen.parse_append hempty
        rw [hparse, readList, hatom]
        rfl
  | unclosed hne hopen =>
      obtain ⟨room, items, outer, -, -, hparse⟩ := hopen.parse_append hne
      rw [← List.append_nil ts, hparse, readList]
      rfl
  | @tooDeep before hopen hlevel rest =>
      by_cases hempty : before = []
      · subst hempty
        obtain rfl : limit = 0 := Int.natCast_eq_zero.mp hlevel.symm
        rfl
      · obtain ⟨room, items, outer, hroom, -, hparse⟩ := hopen.parse_append hempty
        obtain rfl : room = 0 := by omega
        rw [hparse, readList]
        rfl

theorem Finding.parse_eq_error {limit : Nat} {ts : List Token} {reason : Stop}
    (h : Finding limit ts (.error reason)) : parse limit ts = .error reason := by
  have hend := h.parse_eq
  cases hparse : parse limit ts with
  | ok pair =>
      rw [hparse] at hend
      cases hend
  | error cause =>
      rw [hparse] at hend
      cases hend
      rfl

theorem Finding.exists_parse {limit : Nat} {ts rest : List Token}
    (h : Finding limit ts (.ok rest)) : ∃ e, parse limit ts = .ok (e, rest) := by
  have hend := h.parse_eq
  cases hparse : parse limit ts with
  | ok pair =>
      rw [hparse] at hend
      cases hend
      exact ⟨pair.1, rfl⟩
  | error reason =>
      rw [hparse] at hend
      cases hend

/-- The count goes on from where it is until it finds something: by induction on
the tokens to come, each of them is a finding or moves the count one on. -/
theorem OpenTo.exists_finding {limit : Nat} (rest : List Token) : ∀ {before : List Token},
    OpenTo limit before → ∃ r, Finding limit (before ++ rest) r := by
  induction rest with
  | nil =>
      intro before h
      rw [List.append_nil]
      by_cases hempty : before = []
      · subst hempty
        exact ⟨_, .nothing⟩
      · exact ⟨_, .unclosed hempty h⟩
  | cons t rest ih =>
      intro before h
      have hgo : OpenTo limit (before ++ [t]) → ∃ r, Finding limit (before ++ t :: rest) r := by
        intro hmore
        rw [List.append_cons]
        exact ih hmore
      have hlevel : 0 ≤ level before ∧ (before ≠ [] → 0 < level before) := by
        by_cases hempty : before = []
        · subst hempty
          exact ⟨Int.le_refl 0, fun hne => absurd rfl hne⟩
        · have hpos := h.staysOpen before List.prefix_rfl hempty
          exact ⟨Int.le_of_lt hpos, fun _ => hpos⟩
      have hwithin := h.within before List.prefix_rfl
      cases t with
      | opening =>
          by_cases hlimit : level before = limit
          · exact ⟨_, .tooDeep h hlimit rest⟩
          · refine hgo (openTo_concat.mpr ⟨h, ?_, ?_, fun _ => nofun⟩) <;>
              (rw [level_concat, tick]; omega)
      | closing =>
          by_cases hempty : before = []
          · subst hempty
            exact ⟨_, .stray rest⟩
          have hpos := hlevel.2 hempty
          by_cases hone : level before = 1
          · rw [List.append_cons]
            refine ⟨_, .extent (isExtent_concat h hempty hone) (fun q hq => ?_) rest⟩
            rcases List.prefix_concat_iff.mp hq with rfl | hq
            · rw [level_concat, tick]
              omega
            · exact h.within q hq
          · refine hgo (openTo_concat.mpr ⟨h, ?_, ?_, fun _ => nofun⟩) <;>
              (rw [level_concat, tick]; omega)
      | word text =>
          cases hatom : readAtom text with
          | error reason => exact ⟨_, .rejected h hatom rest⟩
          | ok atom =>
              by_cases hempty : before = []
              · subst hempty
                refine ⟨_, .extent (p := [.word text]) (isExtent_word hatom) (fun q hq => ?_) rest⟩
                rcases List.prefix_concat_iff.mp (show q <+: [] ++ [_] from hq) with rfl | hq
                · exact hwithin
                · exact h.within q hq
              · have hpos := hlevel.2 hempty
                refine hgo (openTo_concat.mpr ⟨h, ?_, ?_, ?_⟩)
                · rwa [level_concat, tick]
                · rwa [level_concat, tick]
                · rintro _ ⟨⟩
                  exact ⟨atom, hatom⟩

theorem exists_finding (limit : Nat) (ts : List Token) : ∃ r, Finding limit ts r :=
  (openTo_nil limit).exists_finding ts

/-! ## The limit -/

/-- Tokens that stay open keep the limit, or there is a first opening parenthesis
that goes past it. -/
theorem StaysOpen.openTo_or_tooDeep {ts : List Token} (hopen : StaysOpen ts)
    (hread : Readable ts) (limit : Nat) :
    OpenTo limit ts ∨ ∃ before after, ts = before ++ .opening :: after ∧ OpenTo limit before
      ∧ level before = limit := by
  induction ts using List.reverseRecOn with
  | nil => exact Or.inl (openTo_nil limit)
  | append_singleton ts t ih =>
      obtain ⟨hopen, hpos⟩ := staysOpen_concat.mp hopen
      obtain ⟨hread, hword⟩ := readable_concat.mp hread
      rcases ih hopen hread with hts | ⟨before, after, rfl, hbefore, hlevel⟩
      · have hwithin := hts.within ts List.prefix_rfl
        by_cases hle : level (ts ++ [t]) ≤ limit
        · exact Or.inl (openTo_concat.mpr ⟨hts, hpos, hle, hword⟩)
        · rw [level_concat] at hle
          cases t with
          | opening =>
              simp only [tick] at hle
              exact Or.inr ⟨ts, [], rfl, hts, by omega⟩
          | closing | word =>
              simp only [tick] at hle
              omega
      · exact Or.inr ⟨before, after ++ [t], by simp, hbefore, hlevel⟩

theorem NestsWithin.openTo {limit : Nat} {ts q : List Token} (h : NestsWithin limit ts)
    (hq : q <+: ts) (hopen : StaysOpen q) (hread : Readable q) : OpenTo limit q :=
  ⟨hopen, hread, fun r hr => h r (hr.trans hq) (hopen.of_prefix hr) (hread.of_prefix hr)⟩

theorem NestsWithin.within_extent {limit : Nat} {ts p : List Token} (h : NestsWithin limit ts)
    (hp : p <+: ts) (hextent : IsExtent p) : ∀ q, q <+: p → level q ≤ limit := by
  intro q hq
  by_cases hwhole : q = p
  · rw [hwhole, hextent.level_eq]
    exact Int.natCast_nonneg limit
  · refine h q (hq.trans hp) (fun r hr hne => ?_) (hextent.readable.of_prefix hq)
    refine hextent.inner r (hr.trans hq) hne ?_
    rintro rfl
    exact hwhole (hq.eq_of_length (Nat.le_antisymm hq.length_le hr.length_le))

theorem not_nestsWithin_of_tooDeep {limit : Nat} {before : List Token} (h : OpenTo limit before)
    (hlevel : level before = limit) (rest : List Token) :
    ¬ NestsWithin limit (before ++ .opening :: rest) := by
  intro hnests
  have hnext : level (before ++ [.opening]) = limit + 1 := by rw [level_concat, hlevel, tick]
  have hle := hnests (before ++ [.opening]) (by simp)
    (staysOpen_concat.mpr ⟨h.staysOpen, by omega⟩)
    (readable_concat.mpr ⟨h.readable, fun _ => nofun⟩)
  omega

end Token

/-! ## The reader by its count -/

open Token

section

variable {limit : Nat} {ts : List Token}

theorem parse_eq_nesting_iff :
    parse limit ts = .error (.fault (.nesting "read")) ↔ ¬ NestsWithin limit ts := by
  constructor
  · intro h
    obtain ⟨r, hfound⟩ := exists_finding limit ts
    have hr := hfound.parse_eq
    rw [h] at hr
    cases hfound with
    | tooDeep hopen hlevel rest => exact not_nestsWithin_of_tooDeep hopen hlevel rest
    | rejected _ hatom _ =>
        cases hr
        rcases readAtom_eq_error hatom with ⟨-, hreason⟩ | hreason | hreason <;> cases hreason
    | nothing | stray | extent | unclosed => cases hr
  · intro h
    simp only [NestsWithin, not_forall, not_le] at h
    obtain ⟨q, ⟨rest, rfl⟩, hopen, hread, hlevel⟩ := h
    rcases hopen.openTo_or_tooDeep hread limit with hq | ⟨before, after, rfl, hbefore, hfull⟩
    · exact absurd (hq.within q List.prefix_rfl) (by omega)
    · rw [List.append_assoc]
      exact (Finding.tooDeep hbefore hfull (after ++ rest)).parse_eq_error

theorem exists_isExtent_of_parse {e : Expr} {rest : List Token}
    (h : parse limit ts = .ok (e, rest)) : ∃ p, ts = p ++ rest ∧ IsExtent p := by
  obtain ⟨r, hfound⟩ := exists_finding limit ts
  have hr := hfound.parse_eq
  rw [h] at hr
  cases hfound with
  | extent hp _ _ =>
      cases hr
      exact ⟨_, rfl, hp⟩
  | nothing | stray | rejected | unclosed | tooDeep => cases hr

theorem parse_eq_unmatchedClose_iff {message : String} :
    parse limit ts = .error (ReadFault.unmatchedClose message).stop ↔
      ts.head? = some .closing ∧ message = "Unexpected ')'" := by
  constructor
  · intro h
    obtain ⟨r, hfound⟩ := exists_finding limit ts
    have hr := hfound.parse_eq
    rw [h] at hr
    cases hfound with
    | stray rest =>
        cases hr
        exact ⟨rfl, rfl⟩
    | rejected _ hatom _ =>
        cases hr
        rcases readAtom_eq_error hatom with ⟨-, hreason⟩ | hreason | hreason <;> cases hreason
    | nothing | extent | unclosed | tooDeep => cases hr
  · rintro ⟨hhead, rfl⟩
    obtain ⟨rest, rfl⟩ := List.head?_eq_some_iff.mp hhead
    rfl

/-- Nothing but the end of the tokens is left to find. -/
theorem parse_eq_endOfInput (hnests : NestsWithin limit ts)
    (hextent : ∀ p, p <+: ts → ¬ IsExtent p) (hhead : ts.head? ≠ some .closing)
    (hwords : ∀ before text rest, ts = before ++ .word text :: rest → StaysOpen before →
      ∃ e, readAtom text = .ok e) :
    parse limit ts = .error (ReadFault.endOfInput (if ts = [] then
      "Unexpected end of input" else "Unexpected end of input, expected ')'")).stop := by
  obtain ⟨r, hfound⟩ := exists_finding limit ts
  cases hfound with
  | nothing => rfl
  | stray rest => exact absurd rfl hhead
  | extent hp _ rest => exact absurd hp (hextent _ (List.prefix_append ..))
  | @rejected before text reason hopen hatom rest =>
      obtain ⟨e, he⟩ := hwords before text rest rfl hopen.staysOpen
      rw [hatom] at he
      cases he
  | unclosed hne hopen =>
      rw [if_neg hne]
      exact (Finding.unclosed hne hopen).parse_eq_error
  | tooDeep hopen hlevel rest => exact absurd hnests (not_nestsWithin_of_tooDeep hopen hlevel rest)

end

/-- **The reader ends where a count of open lists says, and for the reason that
it gives.** The limit is reported exactly if more lists are open at once, before
the expression ends and before a word that cannot be read. Otherwise an
expression is read exactly if the tokens start with an extent, and what is taken
is the shortest one. A stray closing parenthesis is reported exactly if it comes
first; else the first word that is no atom, if the expression did not end before
it, whether or not it ends behind it; else the end of the tokens, in other words
if there were none at all. -/
theorem reader_ends_as_counted (limit : Nat) (ts : List Token) :
    (parse limit ts = .error (.fault (.nesting "read")) ↔ ¬ NestsWithin limit ts)
      ∧ (NestsWithin limit ts →
          ((∃ e rest, parse limit ts = .ok (e, rest)) ↔ ∃ p, p <+: ts ∧ IsExtent p)
          ∧ (∀ e rest, parse limit ts = .ok (e, rest) →
              ∃ p, ts = p ++ rest ∧ IsExtent p ∧ ∀ q, q <+: ts → IsExtent q → p <+: q)
          ∧ (∀ message, parse limit ts = .error (ReadFault.unmatchedClose message).stop ↔
              ts.head? = some .closing ∧ message = "Unexpected ')'")
          ∧ (∀ before text rest reason, ts = before ++ .word text :: rest → StaysOpen before →
              Readable before → readAtom text = .error reason → parse limit ts = .error reason)
          ∧ ((∀ p, p <+: ts → ¬ IsExtent p) → ts.head? ≠ some .closing →
              (∀ before text rest, ts = before ++ .word text :: rest → StaysOpen before →
                ∃ e, readAtom text = .ok e) →
              parse limit ts = .error (ReadFault.endOfInput (if ts = [] then
                "Unexpected end of input" else "Unexpected end of input, expected ')'")).stop)) := by
  refine ⟨parse_eq_nesting_iff, fun hnests => ⟨⟨?_, ?_⟩, ?_, ?_, ?_, ?_⟩⟩
  · rintro ⟨e, rest, h⟩
    obtain ⟨p, rfl, hp⟩ := exists_isExtent_of_parse h
    exact ⟨p, List.prefix_append .., hp⟩
  · rintro ⟨p, hprefix, hp⟩
    have hwithin := hnests.within_extent hprefix hp
    obtain ⟨rest, rfl⟩ := hprefix
    obtain ⟨e, he⟩ := (Finding.extent hp hwithin rest).exists_parse
    exact ⟨e, rest, he⟩
  · intro e rest h
    obtain ⟨p, rfl, hp⟩ := exists_isExtent_of_parse h
    exact ⟨p, rfl, hp, fun q hq hextent =>
      hp.prefix_of_isExtent hextent (List.prefix_append ..) hq⟩
  · exact fun _ => parse_eq_unmatchedClose_iff
  · rintro before text rest reason rfl hopen hread hatom
    have hbefore := hnests.openTo (List.prefix_append ..) hopen hread
    exact (Finding.rejected hbefore hatom rest).parse_eq_error
  · exact parse_eq_endOfInput hnests

/-- A list before a literal without its second quote, and the same without the
closing parenthesis: the literal is behind the extent of the first, and is what
the second is reported for. A list in the list goes past the limit. -/
theorem reader_ends_as_counted_literal :
    let listed : List Token := [.opening, .word "a", .closing, .word "'b"]
    let broken : List Token := [.opening, .word "a", .word "'b"]
    let deep : List Token := [.opening, .word "a", .opening]
    NestsWithin 1 listed ∧ NestsWithin 1 broken ∧ ¬ NestsWithin 1 deep
      ∧ IsExtent [.opening, .word "a", .closing]
      ∧ parse 1 listed = .ok (.list [.symbol "a"], [.word "'b"])
      ∧ (∃ p, listed = p ++ [.word "'b"] ∧ IsExtent p
          ∧ ∀ q, q <+: listed → IsExtent q → p <+: q)
      ∧ parse 1 broken = .error (ReadFault.unterminatedLiteral "'b").stop
      ∧ parse 1 deep = .error (.fault (.nesting "read")) := by
  intro listed broken deep
  have hatom : readAtom "a" = .ok (.symbol "a") := by cbv
  have hliteral : readAtom "'b" = .error (ReadFault.unterminatedLiteral "'b").stop := by cbv
  have hnests : ∀ ts : List Token, (∀ q ∈ ts.inits, level q ≤ 1) → NestsWithin 1 ts :=
    fun ts h q hq _ _ => h q ((List.mem_inits q ts).mpr hq)
  have hlisted : NestsWithin 1 listed := hnests listed (by decide)
  have hbroken : NestsWithin 1 broken := hnests broken (by decide)
  have hstart : OpenTo 1 [.opening, .word "a"] := by
    refine (@openTo_concat 1 [.opening] (.word "a")).mpr ⟨?_, by decide, by decide, ?_⟩
    · refine (@openTo_concat 1 [] .opening).mpr ⟨openTo_nil 1, by decide, by decide, ?_⟩
      rintro _ ⟨⟩
    · rintro _ ⟨⟩
      exact ⟨_, hatom⟩
  have hextent : IsExtent [.opening, .word "a", .closing] :=
    isExtent_concat hstart (List.cons_ne_nil _ _) rfl
  obtain ⟨-, hread⟩ := reader_ends_as_counted 1 listed
  obtain ⟨-, hshortest, -⟩ := hread hlisted
  have hparse : parse 1 listed = .ok (.list [.symbol "a"], [.word "'b"]) := by cbv
  obtain ⟨-, hfaults⟩ := reader_ends_as_counted 1 broken
  obtain ⟨-, -, -, hrejected, -⟩ := hfaults hbroken
  obtain ⟨hdeep, -⟩ := reader_ends_as_counted 1 deep
  have hnesting : parse 1 deep = .error (.fault (.nesting "read")) := by cbv
  exact ⟨hlisted, hbroken, hdeep.mp hnesting, hextent, hparse, hshortest _ _ hparse,
    hrejected [.opening, .word "a"] "'b" [] _ rfl hstart.staysOpen hstart.readable hliteral,
    hnesting⟩

end TinyLisp
