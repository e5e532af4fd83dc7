import ContextScan.Proofs.Ready

namespace ContextScan.Dispatch

universe u v w

theorem Alike.outlines {σ : Type u} {τ : Type v} {α : Type w} {R : σ → τ → Prop} {left : List (Token × Attempt σ)}
    {right : List (Token × Attempt τ)} (alike : Alike R left right) (view : σ → α) (view' : τ → α)
    (same : ∀ s t, R s t → view s = view' t) :
    left.map (fun trial => (trial.1,trial.2.isAccepted,view trial.2.cursor)) =
      right.map (fun trial => (trial.1,trial.2.isAccepted,view' trial.2.cursor)) := by
  induction alike with
  | nil => rfl
  | cons both _ ih => rw [List.map_cons,List.map_cons,ih,both.isAccepted,same _ _ both.cursor]

end ContextScan.Dispatch

namespace ContextScan.Source
open Text Recognizer

def extend (more : List Char) (s : Source) : Source := {s with place := {s.place with ahead := s.place.ahead ++ more}}

variable {text before after more : List Char} {s t : Source}

theorem ahead_of_some (found : (Cursor.lookahead s).isSome = true) : s.place.ahead ≠ [] := by
  intro ended
  change s.place.ahead.head?.isSome = true at found
  rw [ended] at found
  cases found

-- A cursor cannot tell the longer text from the shorter one before it has come to
-- the shorter one's end.
theorem extend_simulates (more : List Char) :
    SimulatesWhile (fun s : Source => s.place.ahead ≠ []) (fun s t => t = s.extend more) := by
  refine ⟨ahead_of_some,id,?_,?_,?_,?_,?_⟩
  · rintro s _ rfl unended
    obtain ⟨c,rest,ahead⟩ := List.exists_cons_of_ne_nil unended
    change s.place.ahead.head? = (s.place.ahead ++ more).head?
    rw [ahead]
    rfl
  · rintro s _ rfl _
    rfl
  · rintro ⟨⟨behind,ahead,offset⟩,_,_,_,_⟩ _ rfl found
    cases ahead with
    | nil => cases found
    | cons c ahead => rfl
  · rintro ⟨⟨behind,ahead,offset⟩,_,_,_,_⟩ _ rfl found
    cases ahead with
    | nil => cases found
    | cons c ahead => rfl
  · rintro s _ rfl
    rfl

def outcomes (valid : TokenSet) (s : Source) : List (Token × Bool × UInt32) :=
  (Dispatch.trials valid s Scan.order).map (fun trial => (trial.1,trial.2.isAccepted,trial.2.cursor.pos))

theorem startAt_extend (regions : List Region) (room : width before < UInt32.size) :
    (startAt (before ++ after ++ more) (UInt32.ofNat (width before))).withRegions regions =
      ((startAt (before ++ after) (UInt32.ofNat (width before))).withRegions regions).extend more := by
  rw [List.append_assoc,startAt_boundary _ room,startAt_boundary _ room]
  rfl

theorem Valid.ahead_some (valid : Valid text s) (small : width text < UInt32.size) (early : s.pos.toNat < width text) :
    s.place.ahead ≠ [] := by
  intro ended
  have number := valid.pos small
  have whole : width text = s.place.offset := by
    rw [← valid.held,Source.text,Place.text,ended,List.append_nil,width_reverse]
    exact valid.sound.symm
  omega

-- Trials that all come to a stop before the end of the text do not depend on what
-- follows it, and neither does the answer.
theorem scan_extended (before after more : List Char) (regions : List Region) (valid : TokenSet)
    (small : width (before ++ after ++ more) < UInt32.size)
    (early : ∀ trial ∈ Dispatch.trials valid
        ((startAt (before ++ after) (UInt32.ofNat (width before))).withRegions regions) Scan.order,
      trial.2.cursor.pos.toNat < width (before ++ after)) :
    let s := (startAt (before ++ after) (UInt32.ofNat (width before))).withRegions regions
    let t := (startAt (before ++ after ++ more) (UInt32.ofNat (width before))).withRegions regions
    (scan valid t).token = (scan valid s).token ∧
      (scan valid t).cursor.tokenSpan = (scan valid s).cursor.tokenSpan ∧
      (scan valid t).cursor.pos = (scan valid s).cursor.pos ∧
      outcomes valid t = outcomes valid s := by
  intro s t
  have short : width (before ++ after) < UInt32.size := width_lead small
  have extended : t = s.extend more := startAt_extend regions (width_lead short)
  have ready : Valid (before ++ after) s := withRegions_valid (startAt_valid _ _) regions
  have shown : ∀ trial ∈ Dispatch.trials valid s Scan.order, trial.2.cursor.place.ahead ≠ [] := by
    intro trial tried
    obtain ⟨_,_,outcome⟩ := Dispatch.trials_attempt tried
    have kept := attempt_valid ready trial.1
    rw [← outcome] at kept
    exact kept.ahead_some short (early trial tried)
  have sim := extend_simulates more
  obtain ⟨token,cursor,_⟩ := sim.scan valid extended shown
  have alike := (sim.trials valid Scan.order extended shown).outlines pos pos (fun _ _ same => by rw [same]; rfl)
  refine ⟨token.symm,?_,?_,alike.symm⟩
  · rw [cursor]
    rfl
  · rw [cursor]
    rfl

theorem scan_extended_tag :
    let s := (startAt [' ','x','<'] 0).withRegions []
    let t := (startAt [' ','x','<','/'] 0).withRegions []
    width [' ','x','<','/'] < UInt32.size ∧
      (∀ trial ∈ Dispatch.trials ⟨9⟩ s Scan.order, trial.2.cursor.pos.toNat < width [' ','x','<']) ∧
      (scan ⟨9⟩ t).token = some .markup ∧ (scan ⟨9⟩ t).cursor.tokenSpan = (scan ⟨9⟩ s).cursor.tokenSpan ∧
      (scan ⟨9⟩ t).cursor.pos = 2 ∧ outcomes ⟨9⟩ t = [(.semicolon,false,1),(.markup,true,2)] := by
  intro s t
  have small : width ([] ++ [' ','x','<'] ++ ['/']) < UInt32.size := by decide
  have early : ∀ trial ∈ Dispatch.trials ⟨9⟩ s Scan.order, trial.2.cursor.pos.toNat < width ([] ++ [' ','x','<']) := by
    decide +kernel
  obtain ⟨token,span,pos,trials⟩ := scan_extended [] [' ','x','<'] ['/'] [] ⟨9⟩ small early
  refine ⟨small,early,token.trans ?_,span,pos.trans ?_,trials.trans ?_⟩
  · decide +kernel
  · decide +kernel
  · decide +kernel

end ContextScan.Source
