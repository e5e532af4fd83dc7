import ContextScan.Json.Lexeme

namespace ContextScan.Json

-- How lexemes are spelled and laid out in a text. Nothing here says how they are found.
def Blank (cs : List Char) : Prop := ∀ c ∈ cs, isSpace c = true

def Digits (cs : List Char) : Prop := ∀ c ∈ cs, isDigit c = true

inductive Whole : Nat → List Char → Prop where
  | zero : Whole 0 ['0']
  | digits (leads : isDigit c = true) (nonzero : c ≠ '0') (rest : Digits ds) :
      Whole (Nat.ofDigitChars 10 (c :: ds) 0) (c :: ds)

-- The flags of these say whether there is such a part at all.
inductive Minus : Bool → List Char → Prop where
  | absent : Minus false []
  | present : Minus true ['-']

inductive Fraction : Bool → List Char → Prop where
  | absent : Fraction false []
  | present (filled : ds ≠ []) (digits : Digits ds) : Fraction true ('.' :: ds)

inductive Exponent : Bool → List Char → Prop where
  | absent : Exponent false []
  | present (mark : e = 'e' ∨ e = 'E') (sign : signs = [] ∨ signs = ['+'] ∨ signs = ['-'])
      (filled : ds ≠ []) (digits : Digits ds) : Exponent true (e :: (signs ++ ds))

inductive Escaped : Piece → List Char → Prop where
  | plain (unquoted : c ≠ '"') (unescaped : c ≠ '\\') (printable : ' ' ≤ c) : Escaped (.plain c) [c]
  | short (listed : escape? e = some c) : Escaped (.plain c) ['\\',e]
  | unit (hex : Digit.readHex [a,b,c,d] = some value) : Escaped (.unit value) ['\\','u',a,b,c,d]

inductive Body : List Piece → List Char → Prop where
  | nil : Body [] []
  | cons (first : Escaped piece cs) (more : Body pieces rest) : Body (piece :: pieces) (cs ++ rest)

-- A number that shows a sign, a fraction or an exponent is no natural one, whatever it
-- comes to.
inductive Spells : Lexeme → List Char → Prop where
  | braceOpen : Spells .braceOpen ['\x7b']
  | braceClose : Spells .braceClose ['\x7d']
  | bracketOpen : Spells .bracketOpen ['[']
  | bracketClose : Spells .bracketClose [']']
  | comma : Spells .comma [',']
  | colon : Spells .colon [':']
  | null : Spells .null ['n','u','l','l']
  | yes : Spells (.bool true) ['t','r','u','e']
  | no : Spells (.bool false) ['f','a','l','s','e']
  | string (body : Body pieces cs) : Spells (.string (join pieces)) ('"' :: (cs ++ ['"']))
  | natural (whole : Whole n cs) : Spells (.natural n) cs
  | number (minus : Minus negative sign) (whole : Whole n cs) (fraction : Fraction broken part)
      (exponent : Exponent powered power) (marked : (negative || broken || powered) = true) :
      Spells .number (sign ++ (cs ++ (part ++ power)))

inductive Laid : List Lexeme → List Char → Prop where
  | nil (blank : Blank space) : Laid [] space
  | cons (blank : Blank space) (first : Spells l cs) (more : Laid ls rest) : Laid (l :: ls) (space ++ (cs ++ rest))

def Stops (c : Char) : Prop := isDigit c = false ∧ c ≠ '.' ∧ c ≠ 'e' ∧ c ≠ 'E'

instance (c : Char) : Decidable (Stops c) := inferInstanceAs (Decidable (_ ∧ _))

def Bounded (rest : List Char) : Prop := ∀ c, rest.head? = some c → isDigit c = false

def Ended (rest : List Char) : Prop := ∀ c, rest.head? = some c → Stops c

theorem Ended.bounded (ended : Ended rest) : Bounded rest := fun c there => (ended c there).1

theorem dropWhile_digits (digits : Digits ds) (bounded : Bounded rest) : (ds ++ rest).dropWhile isDigit = rest := by
  rw [List.dropWhile_append_of_pos digits]
  cases rest with
  | nil => rfl
  | cons c rest => exact List.dropWhile_cons_of_neg (by simp [bounded c rfl])

theorem takeWhile_digits (digits : Digits ds) (bounded : Bounded rest) : (ds ++ rest).takeWhile isDigit = ds := by
  rw [List.takeWhile_append_of_pos digits]
  cases rest with
  | nil => simp
  | cons c rest => rw [List.takeWhile_cons_of_neg (by simp [bounded c rfl]),List.append_nil]

theorem integer_sound (read : integer? text = some (n,rest)) : ∃ cs, text = cs ++ rest ∧ Whole n cs := by
  cases text with
  | nil => cases read
  | cons c text =>
      rw [integer?] at read
      split at read
      · rename_i zero
        cases read
        rw [zero]
        exact ⟨['0'],rfl,.zero⟩
      · rename_i nonzero
        split at read
        · rename_i leads
          cases read
          refine ⟨c :: text.takeWhile isDigit,?_,.digits leads nonzero ?_⟩
          · rw [List.cons_append,List.takeWhile_append_dropWhile]
          · exact List.all_eq_true.mp List.all_takeWhile
        · cases read

theorem integer_complete (whole : Whole n cs) (bounded : Bounded rest) : integer? (cs ++ rest) = some (n,rest) := by
  cases whole with
  | zero => rfl
  | digits leads nonzero digits =>
      rw [List.cons_append,integer?,if_neg nonzero,if_pos leads,takeWhile_digits digits bounded,
        dropWhile_digits digits bounded]

theorem someDigits_sound (read : someDigits? text = some rest) : ∃ ds, text = ds ++ rest ∧ ds ≠ [] ∧ Digits ds := by
  unfold someDigits? at read
  split at read
  · rename_i leads
    cases read
    refine ⟨text.takeWhile isDigit,List.takeWhile_append_dropWhile.symm,?_,List.all_eq_true.mp List.all_takeWhile⟩
    cases text with
    | nil => cases leads
    | cons c text =>
        have digit : isDigit c = true := by simpa using leads
        rw [List.takeWhile_cons_of_pos digit]
        exact List.cons_ne_nil _ _
  · cases read

theorem someDigits_complete (filled : ds ≠ []) (digits : Digits ds) (bounded : Bounded rest) :
    someDigits? (ds ++ rest) = some rest := by
  cases ds with
  | nil => exact absurd rfl filled
  | cons d ds =>
      have leads : isDigit d = true := digits d List.mem_cons_self
      rw [someDigits?,if_pos (by simpa using leads),dropWhile_digits digits bounded]

theorem fraction_sound (read : fraction? text = some (broken,rest)) : ∃ part, text = part ++ rest ∧ Fraction broken part := by
  unfold fraction? at read
  split at read
  · obtain ⟨after,inner,same⟩ := Option.map_eq_some_iff.mp read
    cases same
    obtain ⟨ds,rfl,filled,digits⟩ := someDigits_sound inner
    exact ⟨'.' :: ds,rfl,.present filled digits⟩
  · cases read
    exact ⟨[],rfl,.absent⟩

theorem fraction_complete (fraction : Fraction broken part) (bounded : Bounded rest) (undotted : rest.head? ≠ some '.') :
    fraction? (part ++ rest) = some (broken,rest) := by
  cases fraction with
  | absent =>
      rw [List.nil_append]
      unfold fraction?
      split
      · exact absurd rfl undotted
      · rfl
  | present filled digits => rw [List.cons_append,fraction?,someDigits_complete filled digits bounded]; rfl

theorem unsign_sound (text : List Char) : ∃ signs, text = signs ++ unsign text ∧
    (signs = [] ∨ signs = ['+'] ∨ signs = ['-']) := by
  unfold unsign
  split
  · exact ⟨['+'],rfl,.inr (.inl rfl)⟩
  · exact ⟨['-'],rfl,.inr (.inr rfl)⟩
  · exact ⟨[],rfl,.inl rfl⟩

theorem unsign_complete (sign : signs = [] ∨ signs = ['+'] ∨ signs = ['-']) (filled : ds ≠ []) (digits : Digits ds) :
    unsign (signs ++ (ds ++ rest)) = ds ++ rest := by
  rcases sign with rfl | rfl | rfl
  · cases ds with
    | nil => exact absurd rfl filled
    | cons d ds =>
        have leads : isDigit d = true := digits d List.mem_cons_self
        rw [List.nil_append,List.cons_append]
        unfold unsign
        split
        · rename_i same; cases same; exact absurd leads (by decide)
        · rename_i same; cases same; exact absurd leads (by decide)
        · rfl
  · rfl
  · rfl

theorem marked_sound (mark : e = 'e' ∨ e = 'E') (read : someDigits? (unsign text) = some rest) :
    ∃ power, e :: text = power ++ rest ∧ Exponent true power := by
  obtain ⟨signs,parts,sign⟩ := unsign_sound text
  obtain ⟨ds,more,filled,digits⟩ := someDigits_sound read
  refine ⟨e :: (signs ++ ds),?_,.present mark sign filled digits⟩
  rw [List.cons_append,List.append_assoc,← more,← parts]

theorem exponent_sound (read : exponent? text = some (powered,rest)) : ∃ power, text = power ++ rest ∧ Exponent powered power := by
  unfold exponent? at read
  split at read
  · obtain ⟨after,inner,same⟩ := Option.map_eq_some_iff.mp read
    cases same
    exact marked_sound (.inl rfl) inner
  · obtain ⟨after,inner,same⟩ := Option.map_eq_some_iff.mp read
    cases same
    exact marked_sound (.inr rfl) inner
  · cases read
    exact ⟨[],rfl,.absent⟩

theorem exponent_complete (exponent : Exponent powered power) (ended : Ended rest) :
    exponent? (power ++ rest) = some (powered,rest) := by
  cases exponent with
  | absent =>
      rw [List.nil_append]
      unfold exponent?
      split
      · exact absurd rfl (ended _ rfl).2.2.1
      · exact absurd rfl (ended _ rfl).2.2.2
      · rfl
  | present mark sign filled digits =>
      have inner := someDigits_complete filled digits ended.bounded
      rw [← unsign_complete sign filled digits] at inner
      rcases mark with rfl | rfl <;>
        rw [List.cons_append,List.append_assoc,exponent?,inner,Option.map_some]

-- A fraction starts with its point, an exponent with its mark, so neither runs on
-- from the digits in front of it.
theorem Exponent.front (exponent : Exponent powered power) (ended : Ended rest) :
    Bounded (power ++ rest) ∧ (power ++ rest).head? ≠ some '.' := by
  cases exponent with
  | absent => exact ⟨ended.bounded,fun dotted => (ended _ dotted).2.1 rfl⟩
  | present mark =>
      refine ⟨?_,?_⟩
      · intro c there
        cases there
        rcases mark with rfl | rfl <;> decide
      · intro dotted
        cases dotted
        rcases mark with same | same <;> cases same

theorem Fraction.front (fraction : Fraction broken part) (bounded : Bounded rest) : Bounded (part ++ rest) := by
  cases fraction with
  | absent => exact bounded
  | present =>
      intro c there
      cases there
      decide

theorem unsigned_sound (read : unsigned? text = some (l,rest)) : ∃ n cs broken part powered power,
    text = cs ++ (part ++ (power ++ rest)) ∧ Whole n cs ∧ Fraction broken part ∧ Exponent powered power ∧
      l = if broken || powered then .number else .natural n := by
  obtain ⟨⟨n,one⟩,first,read⟩ := Option.bind_eq_some_iff.mp read
  obtain ⟨⟨broken,two⟩,second,read⟩ := Option.bind_eq_some_iff.mp read
  obtain ⟨⟨powered,three⟩,third,same⟩ := Option.map_eq_some_iff.mp read
  cases same
  obtain ⟨cs,parts,whole⟩ := integer_sound first
  obtain ⟨part,more,fraction⟩ := fraction_sound second
  obtain ⟨power,last,exponent⟩ := exponent_sound third
  refine ⟨n,cs,broken,part,powered,power,?_,whole,fraction,exponent,rfl⟩
  rw [parts,show one = part ++ two from more,show two = power ++ three from last]

theorem unsigned_complete (whole : Whole n cs) (fraction : Fraction broken part) (exponent : Exponent powered power)
    (ended : Ended rest) : unsigned? (cs ++ (part ++ (power ++ rest))) =
      some (if broken || powered then .number else .natural n,rest) := by
  obtain ⟨bounded,undotted⟩ := exponent.front ended
  rw [unsigned?,integer_complete whole (fraction.front bounded),Option.bind_some,
    fraction_complete fraction bounded undotted,Option.bind_some,exponent_complete exponent ended,Option.map_some]

theorem put_sound {found : List Piece × List Char} (escaped : Escaped piece first)
    (ih : ∀ {pieces rest}, pieces? tail = some (pieces,rest) → ∃ cs, tail = cs ++ '"' :: rest ∧ Body pieces cs)
    (mapped : (pieces? tail).map (put piece) = some found) : ∃ cs, first ++ tail = cs ++ '"' :: found.2 ∧ Body found.1 cs := by
  obtain ⟨⟨more,after⟩,inner,same⟩ := Option.map_eq_some_iff.mp mapped
  cases same
  obtain ⟨cs,parts,body⟩ := ih inner
  refine ⟨first ++ cs,?_,.cons escaped body⟩
  rw [parts,List.append_assoc]
  rfl

theorem pieces_sound (read : pieces? text = some (pieces,rest)) : ∃ cs, text = cs ++ '"' :: rest ∧ Body pieces cs := by
  fun_induction pieces? text generalizing pieces rest with
  | case1 => cases read
  | case2 => cases read; exact ⟨[],rfl,.nil⟩
  | case3 a b c d tail ih =>
      obtain ⟨unit,hex,mapped⟩ := Option.bind_eq_some_iff.mp read
      exact put_sound (.unit hex) ih mapped
  | case4 e tail _ ih =>
      obtain ⟨c,listed,mapped⟩ := Option.bind_eq_some_iff.mp read
      exact put_sound (.short listed) ih mapped
  | case5 => cases read
  | case6 c tail unquoted unit short printable ih =>
      refine put_sound (.plain unquoted ?_ (Char.not_lt.mp printable)) ih read
      rintro rfl
      cases tail with
      | nil => cases read
      | cons e tail => exact short e tail rfl rfl

theorem pieces_complete (body : Body pieces cs) (rest : List Char) : pieces? (cs ++ '"' :: rest) = some (pieces,rest) := by
  induction body with
  | nil => rfl
  | @cons piece first pieces more escaped _ ih =>
      rw [List.append_assoc]
      cases escaped with
      | @plain c unquoted unescaped printable =>
          have low : ¬c < ' ' := Char.not_lt.mpr printable
          rw [List.singleton_append,pieces?,if_neg low,ih]
          · rfl
          · exact unquoted
          · intro a b c d tail same
            exact absurd same unescaped
          · intro e tail same
            exact absurd same unescaped
      | @short e c listed =>
          change pieces? ('\\' :: e :: (more ++ '"' :: rest)) = _
          have apart : e ≠ 'u' := by rintro rfl; cases listed
          rw [pieces?,listed,Option.bind_some,ih]
          · rfl
          · intro a b c d tail same
            exact absurd same apart
      | unit hex =>
          change pieces? ('\\' :: 'u' :: _ :: _ :: _ :: _ :: (more ++ '"' :: rest)) = _
          rw [pieces?,hex,Option.bind_some,ih]
          rfl

theorem next_sound (read : next? text = some (l,rest)) : ∃ cs, text = cs ++ rest ∧ Spells l cs := by
  unfold next? at read
  split at read
  case h_1 => cases read; exact ⟨_,rfl,.braceOpen⟩
  case h_2 => cases read; exact ⟨_,rfl,.braceClose⟩
  case h_3 => cases read; exact ⟨_,rfl,.bracketOpen⟩
  case h_4 => cases read; exact ⟨_,rfl,.bracketClose⟩
  case h_5 => cases read; exact ⟨_,rfl,.comma⟩
  case h_6 => cases read; exact ⟨_,rfl,.colon⟩
  case h_7 => cases read; exact ⟨_,rfl,.null⟩
  case h_8 => cases read; exact ⟨_,rfl,.yes⟩
  case h_9 => cases read; exact ⟨_,rfl,.no⟩
  case h_10 text =>
    obtain ⟨⟨pieces,after⟩,inner,same⟩ := Option.map_eq_some_iff.mp read
    cases same
    obtain ⟨cs,rfl,body⟩ := pieces_sound inner
    exact ⟨'"' :: (cs ++ ['"']),by simp,.string body⟩
  case h_11 text =>
    obtain ⟨⟨other,after⟩,inner,same⟩ := Option.map_eq_some_iff.mp read
    cases same
    obtain ⟨n,cs,broken,part,powered,power,rfl,whole,fraction,exponent,_⟩ := unsigned_sound inner
    exact ⟨['-'] ++ (cs ++ (part ++ power)),by simp,.number .present whole fraction exponent rfl⟩
  case h_12 =>
    obtain ⟨n,cs,broken,part,powered,power,rfl,whole,fraction,exponent,rfl⟩ := unsigned_sound read
    refine ⟨cs ++ (part ++ power),by simp,?_⟩
    cases marked : broken || powered with
    | true => exact .number .absent whole fraction exponent marked
    | false =>
        obtain ⟨rfl,rfl⟩ := Bool.or_eq_false_iff.mp marked
        cases fraction
        cases exponent
        simpa using Spells.natural whole

theorem Whole.front (whole : Whole n cs) : ∃ c ds, cs = c :: ds ∧ isDigit c = true := by
  cases whole with
  | zero => exact ⟨_,_,rfl,by decide⟩
  | digits leads => exact ⟨_,_,rfl,leads⟩

theorem next_digit (leads : isDigit c = true) (text : List Char) : next? (c :: text) = unsigned? (c :: text) := by
  unfold next?
  split
  case h_12 => rfl
  all_goals
    rename_i same
    cases same
    exact absurd leads (by decide)

def Numeric : Lexeme → Prop
  | .natural _ | .number => True
  | _ => False

theorem next_complete (spelled : Spells l cs) (ended : Numeric l → Ended rest) : next? (cs ++ rest) = some (l,rest) := by
  cases spelled with
  | string body =>
      rename_i pieces cs
      change (pieces? (cs ++ ['"'] ++ rest)).map _ = _
      rw [List.append_assoc]
      exact congrArg (Option.map _) (pieces_complete body rest)
  | natural whole =>
      have found := unsigned_complete whole .absent .absent (ended trivial)
      obtain ⟨c,ds,rfl,leads⟩ := whole.front
      exact (next_digit leads _).trans found
  | @number _ _ _ cs _ _ _ _ minus whole fraction exponent marked =>
      have found := unsigned_complete whole fraction exponent (ended trivial)
      rw [List.append_assoc,List.append_assoc,List.append_assoc]
      cases minus with
      | absent =>
          obtain ⟨c,ds,rfl,leads⟩ := whole.front
          rw [Bool.false_or] at marked
          rw [if_pos marked] at found
          exact (next_digit leads _).trans found
      | present => exact congrArg (Option.map _) found
  | _ => rfl

-- Only a number must be kept apart from what follows it, and only from another one.
def Apart : List Lexeme → Prop
  | l :: next :: rest => (Numeric l → ¬Numeric next) ∧ Apart (next :: rest)
  | _ => True

theorem space_stops (space : isSpace c = true) : Stops c := by
  simp only [isSpace,Bool.or_eq_true,beq_iff_eq] at space
  rcases space with ((rfl | rfl) | rfl) | rfl <;> decide

theorem digit_solid (leads : isDigit c = true) : isSpace c = false := by
  rw [Bool.eq_false_iff]
  intro space
  exact Bool.eq_false_iff.mp (space_stops space).1 leads

theorem Spells.solid (spelled : Spells l cs) : ∃ c rest, cs = c :: rest ∧ isSpace c = false ∧
    (¬Numeric l → Stops c) := by
  cases spelled with
  | natural whole =>
      obtain ⟨c,ds,rfl,leads⟩ := whole.front
      exact ⟨c,ds,rfl,digit_solid leads,fun other => absurd trivial other⟩
  | number minus whole =>
      cases minus with
      | absent =>
          obtain ⟨c,ds,rfl,leads⟩ := whole.front
          exact ⟨c,_,rfl,digit_solid leads,fun other => absurd trivial other⟩
      | present => exact ⟨'-',_,rfl,by decide,fun other => absurd trivial other⟩
  | _ => exact ⟨_,_,rfl,by decide,fun _ => by decide⟩

theorem Laid.ended (laid : Laid ls text) (other : ∀ l, ls.head? = some l → ¬Numeric l) : Ended text := by
  intro c there
  cases laid with
  | nil blank => exact space_stops (blank c (List.mem_of_head? there))
  | @cons space l cs ls rest blank spelled more =>
      cases space with
      | nil =>
          obtain ⟨d,tail,rfl,_,stops⟩ := spelled.solid
          cases there
          exact stops (other l rfl)
      | cons d space =>
          cases there
          exact space_stops (blank c List.mem_cons_self)

theorem lexemes_next {c : Char} {cs : List Char} (solid : text.dropWhile isSpace = c :: cs) :
    lexemes? text = (next? (c :: cs)).bind (fun found => (lexemes? found.2).map (found.1 :: ·)) := by
  rw [lexemes?]
  split
  · rename_i ended; rw [solid] at ended; cases ended
  · rename_i d ds same
    rw [solid] at same
    cases same
    split
    · rename_i refused; rw [refused]; rfl
    · rename_i l rest found
      change (lexemes? rest).map (l :: ·) = _
      rw [found]
      rfl

theorem lexemes_done (ended : text.dropWhile isSpace = []) : lexemes? text = some [] := by
  rw [lexemes?]
  split
  · rfl
  · rename_i same; rw [ended] at same; cases same

theorem lexemes_sound (read : lexemes? text = some ls) : Laid ls text := by
  induction small : text.length using Nat.strongRecOn generalizing text ls with
  | ind size ih =>
      have parts : text.takeWhile isSpace ++ text.dropWhile isSpace = text := List.takeWhile_append_dropWhile
      have blank : Blank (text.takeWhile isSpace) := List.all_eq_true.mp List.all_takeWhile
      cases solid : text.dropWhile isSpace with
      | nil =>
          rw [lexemes_done solid] at read
          cases read
          rw [← parts,solid,List.append_nil]
          exact .nil blank
      | cons c cs =>
          rw [lexemes_next solid] at read
          obtain ⟨⟨l,rest⟩,found,read⟩ := Option.bind_eq_some_iff.mp read
          obtain ⟨more,later,same⟩ := Option.map_eq_some_iff.mp read
          cases same
          have shorter : rest.length < size := by
            rw [← small]
            exact Nat.lt_of_lt_of_le (next_shorter found) (solid ▸ (List.dropWhile_sublist isSpace).length_le)
          obtain ⟨spelled,split,grammar⟩ := next_sound found
          rw [← parts,solid,split]
          exact .cons blank grammar (ih rest.length shorter later rfl)

theorem lexemes_complete (laid : Laid ls text) (apart : Apart ls) : lexemes? text = some ls := by
  induction laid with
  | @nil space blank =>
      apply lexemes_done
      rw [← List.append_nil space,List.dropWhile_append_of_pos blank]
      rfl
  | @cons space l cs ls rest blank spelled more ih =>
      obtain ⟨c,tail,same,solid,_⟩ := spelled.solid
      have begins : (space ++ (cs ++ rest)).dropWhile isSpace = c :: (tail ++ rest) := by
        rw [List.dropWhile_append_of_pos blank,same,List.cons_append]
        exact List.dropWhile_cons_of_neg (by simp [solid])
      have later : Apart ls ∧ (Numeric l → Ended rest) := by
        cases ls with
        | nil => exact ⟨trivial,fun _ => more.ended (fun _ there => nomatch there)⟩
        | cons next ls =>
            refine ⟨apart.2,fun numeric => more.ended ?_⟩
            intro first there
            cases there
            exact apart.1 numeric
      have found := next_complete spelled later.2
      rw [same,List.cons_append] at found
      rw [lexemes_next begins,found,Option.bind_some,ih later.1,Option.map_some]

end ContextScan.Json
