import ContextScan.Json.Stored
import ContextScan.Proofs.Json.Reading

namespace ContextScan.Json

universe u

def Unescaped (name : List Char) : Prop := ∀ c ∈ name, c ≠ '"' ∧ c ≠ '\\' ∧ ' ' ≤ c

theorem unescaped_of_all (plain : name.all (fun c => c != '"' && c != '\\' && decide (' ' ≤ c)) = true) : Unescaped name := by
  intro c inside
  have each := List.all_eq_true.mp plain c inside
  simp only [Bool.and_eq_true,bne_iff_ne,decide_eq_true_eq] at each
  exact ⟨each.1.1,each.1.2,each.2⟩

theorem join_plain (name : List Char) : join (name.map .plain) = some name := by
  induction name with
  | nil => rfl
  | cons c rest ih =>
      rw [List.map_cons,join,ih]
      rfl

theorem body_plain (unescaped : Unescaped name) : Body (name.map .plain) name := by
  induction name with
  | nil => exact .nil
  | cons c rest ih =>
      obtain ⟨unquoted,unslashed,printable⟩ := unescaped c List.mem_cons_self
      exact .cons (.plain unquoted unslashed printable) (ih (fun d inside => unescaped d (List.mem_cons_of_mem _ inside)))

theorem quoted_spells (unescaped : Unescaped name) : Spells (.string (some name)) (Record.quoted name) := by
  have spelled := Spells.string (body_plain unescaped)
  rwa [join_plain] at spelled

theorem decimal_leads (positive : 0 < n) : ∃ c ds, Digit.writeDecimal n = c :: ds ∧ c ≠ '0' := by
  have digit : ∀ n, n < 10 → 0 < n → Nat.digitChar n ≠ '0' := by decide
  induction n using Nat.strongRecOn with
  | ind n ih =>
      rcases Nat.lt_or_ge n 10 with small | large
      · exact ⟨n.digitChar,[],Nat.toDigits_of_lt_base small,digit n small positive⟩
      · obtain ⟨c,ds,front,nonzero⟩ := ih (n / 10) (by omega) (by omega)
        refine ⟨c,ds ++ [(n % 10).digitChar],?_,nonzero⟩
        rw [Digit.writeDecimal] at front
        rw [Digit.writeDecimal,Nat.toDigits_of_base_le (by decide) large,front]
        rfl

theorem decimal_whole (n : Nat) : Whole n (Digit.writeDecimal n) := by
  rcases Nat.eq_zero_or_pos n with rfl | positive
  · exact .zero
  · obtain ⟨c,ds,front,nonzero⟩ := decimal_leads positive
    have digits : Digits (c :: ds) := by
      intro d inside
      rw [← front] at inside
      exact Nat.isDigit_of_mem_toDigits (by decide) (by decide) inside
    have value : Nat.ofDigitChars 10 (c :: ds) 0 = n := by
      rw [← front]
      exact Nat.ofDigitChars_ten_toDigits
    have whole : Whole _ (c :: ds) :=
      .digits (digits c List.mem_cons_self) nonzero (fun d inside => digits d (List.mem_cons_of_mem _ inside))
    rwa [value,← front] at whole

theorem Laid.tight (first : Spells l cs) (more : Laid ls rest) : Laid (l :: ls) (cs ++ rest) :=
  .cons (List.forall_mem_nil _) first more

theorem Written.unique (one : Written v text) (other : Written w text) : v = w := by
  have same := (ofText_exact v text).mpr one
  rw [(ofText_exact w text).mpr other] at same
  exact (Option.some.inj same).symm

namespace Record

-- The values two numbers are kept as: each under its own name among others, in
-- whatever order, or both alone in theirs.
inductive Holds (first second : List Char) (a b : UInt32) : Value → Prop where
  | pair : Holds first second a b (.array [.natural a.toNat,.natural b.toNat])
  | fields (others : List Member) (named : ∀ m ∈ others, ∃ name, m.1 = some name ∧ name ≠ first ∧ name ≠ second)
      (arranged : members.Perm ((some first,.natural a.toNat) :: (some second,.natural b.toNat) :: others)) :
      Holds first second a b (.object members)

variable {first second : List Char} {a b n : UInt32} {members : List Member} {v : Value}

def under (name : List Char) (members : List Member) : List Member := members.filter (fun m => m.1 == some name)

theorem word_exact : word? v = some n ↔ v = .natural n.toNat := by
  constructor
  · intro read
    unfold word? at read
    split at read
    · split at read
      · rename_i m fits
        cases read
        rw [UInt32.toNat_ofNat_of_lt' fits]
      · cases read
    · cases read
  · rintro rfl
    rw [word?,if_pos n.toNat_lt,UInt32.ofNat_toNat]

theorem field_exact : field? name members = some n ↔ under name members = [(some name,.natural n.toNat)] := by
  constructor
  · intro read
    unfold field? at read
    split at read
    · rename_i m alone
      have inside : m ∈ members.filter (fun m => m.1 == some name) := by
        rw [alone]
        exact List.mem_singleton_self m
      have named : m.1 = some name := beq_iff_eq.mp (List.mem_filter.mp inside).2
      rw [under,alone,← named,← word_exact.mp read]
    · cases read
  · intro alone
    rw [under] at alone
    rw [field?,alone]
    exact word_exact.mpr rfl

theorem under_alone {others : List Member} (arranged : members.Perm ((some name,v) :: others))
    (away : ∀ m ∈ others, m.1 ≠ some name) : under name members = [(some name,v)] := by
  have same := arranged.filter (fun m => m.1 == some name)
  have nobody : others.filter (fun m => m.1 == some name) = [] := by
    rw [List.filter_eq_nil_iff]
    intro m inside named
    exact away m inside (beq_iff_eq.mp named)
  rw [List.filter_cons_of_pos (by simp),nobody] at same
  exact List.perm_singleton.mp same

theorem under_value {m : Member} (alone : under name members = [(some name,v)]) (inside : m ∈ members)
    (named : m.1 = some name) : m.2 = v := by
  have found : m ∈ under name members := List.mem_filter.mpr ⟨inside,beq_iff_eq.mpr named⟩
  rw [alone] at found
  cases List.mem_singleton.mp found
  rfl

theorem arranged_under (apart : first ≠ second) {x y : Value} {others : List Member}
    (named : ∀ m ∈ others, ∃ name, m.1 = some name ∧ name ≠ first ∧ name ≠ second)
    (arranged : members.Perm ((some first,x) :: (some second,y) :: others)) :
    members.all (fun m => m.1.isSome) = true ∧ under first members = [(some first,x)] ∧ under second members = [(some second,y)] := by
  have away : ∀ m ∈ others, m.1 ≠ some first ∧ m.1 ≠ some second ∧ m.1.isSome = true := by
    intro m inside
    obtain ⟨name,same,left,right⟩ := named m inside
    simp [same,left,right]
  refine ⟨?_,under_alone arranged ?_,under_alone (arranged.trans (.swap _ _ _)) ?_⟩
  · rw [arranged.all_eq,List.all_cons,List.all_cons,List.all_eq_true.mpr (fun m inside => (away m inside).2.2)]
    rfl
  · exact List.forall_mem_cons.mpr ⟨fun same => apart (Option.some.inj same).symm,fun m inside => (away m inside).1⟩
  · exact List.forall_mem_cons.mpr ⟨fun same => apart (Option.some.inj same),fun m inside => (away m inside).2.1⟩

theorem under_arranged (apart : first ≠ second) {x y : Value} (spelled : members.all (fun m => m.1.isSome) = true)
    (one : under first members = [(some first,x)]) (other : under second members = [(some second,y)]) :
    ∃ others, (∀ m ∈ others, ∃ name, m.1 = some name ∧ name ≠ first ∧ name ≠ second) ∧
      members.Perm ((some first,x) :: (some second,y) :: others) := by
  let rest := members.filter (fun m => !(m.1 == some first))
  have left : under second rest = under second members := by
    rw [under,under,List.filter_filter]
    apply List.filter_congr
    intro m _
    cases same : m.1 == some second with
    | false => rfl
    | true => simp [beq_iff_eq.mp same,apart.symm]
  have whole := List.filter_append_perm (fun m : Member => m.1 == some first) members
  have parts := List.filter_append_perm (fun m : Member => m.1 == some second) rest
  change (under first members ++ rest).Perm members at whole
  change (under second rest ++ _).Perm rest at parts
  rw [one] at whole
  rw [left,other] at parts
  refine ⟨rest.filter (fun m => !(m.1 == some second)),?_,whole.symm.trans (parts.symm.cons _)⟩
  intro m inside
  obtain ⟨inner,unsecond⟩ := List.mem_filter.mp inside
  obtain ⟨inside,unfirst⟩ := List.mem_filter.mp inner
  obtain ⟨name,same⟩ := Option.isSome_iff_exists.mp (List.all_eq_true.mp spelled m inside)
  rw [same] at unfirst unsecond
  exact ⟨name,same,by simpa using unfirst,by simpa using unsecond⟩

theorem read_exact (apart : first ≠ second) : read? first second v = some (a,b) ↔ Holds first second a b v := by
  constructor
  · intro read
    unfold read? at read
    split at read
    · obtain ⟨a,left,read⟩ := Option.bind_eq_some_iff.mp read
      obtain ⟨b,right,same⟩ := Option.map_eq_some_iff.mp read
      cases same
      rw [word_exact.mp left,word_exact.mp right]
      exact .pair
    · split at read
      · rename_i spelled
        obtain ⟨a,left,read⟩ := Option.bind_eq_some_iff.mp read
        obtain ⟨b,right,same⟩ := Option.map_eq_some_iff.mp read
        cases same
        obtain ⟨others,named,arranged⟩ := under_arranged apart spelled (field_exact.mp left) (field_exact.mp right)
        exact .fields others named arranged
      · cases read
    · cases read
  · intro holds
    cases holds with
    | pair => rw [read?,word_exact.mpr rfl,word_exact.mpr rfl]; rfl
    | fields others named arranged =>
        obtain ⟨spelled,left,right⟩ := arranged_under apart named arranged
        rw [read?,if_pos spelled,field_exact.mpr left,field_exact.mpr right]
        rfl

theorem write_written (one : Unescaped first) (other : Unescaped second) (a b : UInt32) :
    Written (.object [(some first,.natural a.toNat),(some second,.natural b.toNat)]) (write first second a b) := by
  have lexemes : (Value.object [(some first,.natural a.toNat),(some second,.natural b.toNat)]).lexemes =
      [.braceOpen,.string (some first),.colon,.natural a.toNat,.comma,.string (some second),.colon,
        .natural b.toNat,.braceClose] := by
    rw [lexemes_object]
    simp [commas,Member.lexemes,Value.lexemes]
  have field : ∀ {name ls rest} (n : UInt32), Unescaped name → Laid ls rest →
      Laid (.string (some name) :: .colon :: .natural n.toNat :: ls) (member name n ++ rest) := by
    intro name ls rest n unescaped more
    have laid := Laid.tight (quoted_spells unescaped) (.tight .colon (.tight (.natural (decimal_whole n.toNat)) more))
    simpa [member] using laid
  have laid := Laid.tight .braceOpen (field a one (.tight .comma (field b other (.tight .braceClose (.nil (List.forall_mem_nil _))))))
  rw [Written,lexemes]
  simpa [write] using laid

-- How pairs of numbers are kept as text under two names: what is written for one is read
-- back, and so is every other text that holds the two numbers, but nothing else. A name
-- must stand exactly once, and under it a number of 32 bits in plain digits.
structure ReadsBack {α : Type u} (first second : List Char) (make : UInt32 → UInt32 → α) (stored : α → List Char)
    (ofStored? : List Char → Option α) : Prop where
  again : ∀ x, ofStored? (stored x) = some x
  exact : ∀ text a b, ofStored? text = some (make a b) ↔ ∃ v, Holds first second a b v ∧ Written v text
  settled : ∀ text x, ofStored? text = some x → ofStored? (stored x) = some x
  counted : ∀ text members, Written (.object members) text →
    (under first members).length ≠ 1 ∨ (under second members).length ≠ 1 → ofStored? text = none
  plain : ∀ text members m, Written (.object members) text → m ∈ members → m.1 = some first ∨ m.1 = some second →
    (∀ n : UInt32, m.2 ≠ .natural n.toNat) → ofStored? text = none

theorem Holds.alone (apart : first ≠ second) (holds : Holds first second a b (.object members)) :
    under first members = [(some first,.natural a.toNat)] ∧ under second members = [(some second,.natural b.toNat)] := by
  cases holds with
  | fields others named arranged => exact (arranged_under apart named arranged).2

theorem reads_back {α : Type u} {make : UInt32 → UInt32 → α} {stored : α → List Char} {ofStored? : List Char → Option α}
    (apart : first ≠ second) (one : Unescaped first) (other : Unescaped second)
    (made : ∀ x, ∃ a b, x = make a b) (injective : ∀ a b c d, make a b = make c d → a = c ∧ b = d)
    (writes : ∀ a b, stored (make a b) = write first second a b)
    (reads : ∀ text, ofStored? text = ((Value.ofText? text).bind (read? first second)).map (fun pair => make pair.1 pair.2)) :
    ReadsBack first second make stored ofStored? := by
  have accepts : ∀ text a b, ofStored? text = some (make a b) ↔ ∃ v, Holds first second a b v ∧ Written v text := by
    intro text a b
    rw [reads]
    constructor
    · intro read
      obtain ⟨⟨c,d⟩,inner,same⟩ := Option.map_eq_some_iff.mp read
      obtain ⟨v,found,pair⟩ := Option.bind_eq_some_iff.mp inner
      obtain ⟨rfl,rfl⟩ := injective _ _ _ _ same
      exact ⟨v,(read_exact apart).mp pair,(ofText_exact v text).mp found⟩
    · intro held
      obtain ⟨v,holds,written⟩ := held
      rw [(ofText_exact v text).mpr written,Option.bind_some,(read_exact apart).mpr holds,Option.map_some]
  have again : ∀ x, ofStored? (stored x) = some x := by
    intro x
    obtain ⟨a,b,rfl⟩ := made x
    rw [writes]
    exact (accepts _ a b).mpr ⟨_,.fields [] (List.forall_mem_nil _) (.refl _),write_written one other a b⟩
  -- What is read is one of those values, and a text is only one value's.
  have refused : ∀ text members, Written (.object members) text → (∀ a b, ¬Holds first second a b (.object members)) →
      ofStored? text = none := by
    intro text members written missing
    rw [Option.eq_none_iff_forall_ne_some]
    intro x read
    obtain ⟨a,b,rfl⟩ := made x
    obtain ⟨v,holds,there⟩ := (accepts text a b).mp read
    cases there.unique written
    exact missing a b holds
  refine ⟨again,accepts,fun text x _ => again x,?_,?_⟩
  · intro text members written miscounted
    apply refused text members written
    intro a b holds
    obtain ⟨left,right⟩ := holds.alone apart
    rw [left,right] at miscounted
    exact miscounted.elim (absurd rfl) (absurd rfl)
  · intro text members m written inside named unfit
    apply refused text members written
    intro a b holds
    obtain ⟨left,right⟩ := holds.alone apart
    rcases named with named | named
    · exact unfit a (under_value left inside named)
    · exact unfit b (under_value right inside named)

theorem stored_exact : ReadsBack "start".toList "length".toList Span.mk Span.stored Span.ofStored? ∧
    ReadsBack "pos".toList "end".toList Region.mk Region.stored Region.ofStored? := by
  refine ⟨reads_back ?_ ?_ ?_ (fun x => ⟨x.start,x.length,rfl⟩) ?_ (fun _ _ => rfl) (fun _ => rfl),
    reads_back ?_ ?_ ?_ (fun x => ⟨x.start,x.stop,rfl⟩) ?_ (fun _ _ => rfl) (fun _ => rfl)⟩
  · decide
  · exact unescaped_of_all (by decide)
  · exact unescaped_of_all (by decide)
  · intro a b c d same; cases same; exact ⟨rfl,rfl⟩
  · decide
  · exact unescaped_of_all (by decide)
  · exact unescaped_of_all (by decide)
  · intro a b c d same; cases same; exact ⟨rfl,rfl⟩

theorem stored_exact_spread :
    Span.ofStored? " \x7b\"x\" : [1.5e3,\x7b\x7d] ,\n\"length\":3,\"start\":4294967295\x7d".toList = some ⟨4294967295,3⟩ ∧
    Region.ofStored? (Region.stored ⟨9,2⟩) = some ⟨9,2⟩ ∧
    Span.ofStored? "\x7b\"start\":1,\"st\\u0061rt\":1,\"length\":3\x7d".toList = none ∧
    Span.ofStored? "\x7b\"start\":-0,\"length\":3\x7d".toList = none := by
  obtain ⟨spans,regions⟩ := stored_exact
  have nested : Written (.object [(some ['x'],.array [.number,.object []]),(some "length".toList,.natural 3),
      (some "start".toList,.natural 4294967295)])
      " \x7b\"x\" : [1.5e3,\x7b\x7d] ,\n\"length\":3,\"start\":4294967295\x7d".toList :=
    lexemes_sound (by decide +kernel)
  have twice : Written (.object [(some "start".toList,.natural 1),(some "start".toList,.natural 1),
      (some "length".toList,.natural 3)]) "\x7b\"start\":1,\"st\\u0061rt\":1,\"length\":3\x7d".toList :=
    lexemes_sound (by decide +kernel)
  have signed : Written (.object [(some "start".toList,.number),(some "length".toList,.natural 3)])
      "\x7b\"start\":-0,\"length\":3\x7d".toList :=
    lexemes_sound (by decide +kernel)
  refine ⟨?_,regions.again ⟨9,2⟩,spans.counted _ _ twice (.inl (by decide)),?_⟩
  · refine (spans.exact _ _ _).mpr ⟨_,.fields [(some ['x'],.array [.number,.object []])] ?_ (List.reverse_perm _),nested⟩
    intro m inside
    cases List.mem_singleton.mp inside
    exact ⟨['x'],rfl,by decide,by decide⟩
  · exact spans.plain _ _ _ signed List.mem_cons_self (.inl rfl) (fun n same => nomatch same)

end Record
end ContextScan.Json
