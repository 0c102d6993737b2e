import Kademlia.Json.Record
import Kademlia.Proofs.Json.Token

/-!
Reading a record from texts that follow the grammar. A member that is no field is passed over, whatever its value is;
so an object gives the record of its fields in any order among any others, and an array gives it as well.
-/
namespace Kademlia.Json
namespace Shape
variable {δ α : Type} {s : Shape δ α} {st st' : Stage δ α}

/-- Reading a part of a text leads from one place to another. -/
def Takes (s : Shape δ α) (cs : List Char) (st st' : Stage δ α) : Prop :=
  ∃ ts, Reads cs ts ∧ ts.foldlM s.step st = .ok st'

theorem parse_of_takes {text : String} {a : α} (h : s.Takes text.toList .start (.complete a)) :
    s.parse text = .ok a := by
  obtain ⟨ts, hts, hrun⟩ := h
  rw [parse, hts.tokens_eq, hrun]

theorem Takes.token {cs : List Char} {t : Token} (hcs : Reads cs [t]) (hstep : s.step st t = .ok st') :
    s.Takes cs st st' := by
  refine ⟨[t], hcs, ?_⟩
  rw [List.foldlM_cons, hstep]
  rfl

theorem Takes.blanks {ws : List Char} (hws : Blanks ws) (st : Stage δ α) : s.Takes ws st st :=
  ⟨[], Reads.blanks hws, rfl⟩

theorem Takes.padded {cs part : List Char} (h : s.Takes part st st') (hcs : Padded cs part) : s.Takes cs st st' := by
  obtain ⟨ts, hts, hrun⟩ := h
  exact ⟨ts, hts.padded hcs, hrun⟩

theorem Takes.append_mark {cs ds : List Char} {c : Char} {m : Mark} {mid mid' : Stage δ α} (hcs : s.Takes cs st mid)
    (hm : mark? c = some m) (hstep : s.step mid (.mark m) = .ok mid') (hds : s.Takes ds mid' st') :
    s.Takes (cs ++ c :: ds) st st' := by
  obtain ⟨ts, hts, hrun⟩ := hcs
  obtain ⟨us, hus, hrun'⟩ := hds
  refine ⟨ts ++ .mark m :: us, hts.append_mark hm hus, ?_⟩
  rw [List.foldlM_append, hrun]
  simp only [bind, Except.bind, List.foldlM_cons, hstep, hrun']

theorem Takes.enclosed {cs : List Char} {c d : Char} {m n : Mark} {mid mid' : Stage δ α} (hm : mark? c = some m)
    (hopen : s.step st (.mark m) = .ok mid) (hcs : s.Takes cs mid mid') (hn : mark? d = some n)
    (hclose : s.step mid' (.mark n) = .ok st') : s.Takes (c :: (cs ++ [d])) st st' :=
  (Takes.blanks blanks_nil st).append_mark hm hopen (hcs.append_mark hn hclose (Takes.blanks blanks_nil st'))

theorem mem_of_eq_append {ι : Type} {items done rest : List ι} {i : ι} (h : items = done ++ i :: rest) : i ∈ items := by
  rw [h]
  exact List.mem_append_right done List.mem_cons_self

section
variable {ι : Type} {part : List Char → ι → Prop} (items : List ι) (Before After : List ι → Stage δ α → Prop)
  (hitem : ∀ done i rest cs st, items = done ++ i :: rest → part cs i → Before done st →
    ∃ st', s.Takes cs st st' ∧ After (done ++ [i]) st')
  (hcomma : ∀ done i rest st, items = done ++ i :: rest → After done st →
    ∃ st', s.step st (.mark .comma) = .ok st' ∧ Before done st')
include hitem hcomma

/-- Parts with commas between them are taken one by one, when each leads from a place before it to one behind it, and
each comma from there to a place before the next part. -/
theorem Takes.separated {cs : List Char} (h : Separated part cs items) (hst : Before [] st) :
    items = [] ∧ s.Takes cs st st ∨ ∃ st', s.Takes cs st st' ∧ After items st' := by
  -- the parts that are left, from any place before the first of them
  have hrun : ∀ {is cs} (_ : Separated part cs is) (done st), items = done ++ is → is ≠ [] → Before done st →
      ∃ st', s.Takes cs st st' ∧ After items st' := by
    intro is cs h
    induction h with
    | none => exact fun done st _ hne => absurd rfl hne
    | @one i cs hi =>
      intro done st hitems _ hst
      rw [hitems] at hitem ⊢
      exact hitem done i [] cs st rfl hi hst
    | @more i j is cs ds hi h ih =>
      intro done st hitems _ hst
      have hitems' : items = (done ++ [i]) ++ j :: is := by rw [hitems, List.append_assoc]; rfl
      obtain ⟨st₁, htakes, hafter⟩ := hitem done i (j :: is) cs st hitems hi hst
      obtain ⟨st₂, hstep, hbefore⟩ := hcomma (done ++ [i]) j is st₁ hitems' hafter
      obtain ⟨st', htakes', hafter'⟩ := ih (done ++ [i]) st₂ hitems' (List.cons_ne_nil j is) hbefore
      exact ⟨st', htakes.append_mark rfl hstep htakes', hafter'⟩
  cases items with
  | nil =>
    cases h with
    | none h => exact Or.inl ⟨rfl, Takes.blanks h st⟩
  | cons i is => exact Or.inr (hrun h [] st rfl (List.cons_ne_nil i is) hst)

/-- An array or object that is entered at `mid` is taken when its parts are, and when its end may come behind the last
of them or, if there are none, at once. -/
theorem Takes.compound {cs : List Char} {c d : Char} {m n : Mark} {mid : Stage δ α} (hcs : Separated part cs items)
    (hm : mark? c = some m) (hopen : s.step st (.mark m) = .ok mid) (hmid : Before [] mid) (hn : mark? d = some n)
    (hempty : items = [] → s.step mid (.mark n) = .ok st')
    (hclose : ∀ last, After items last → s.step last (.mark n) = .ok st') : s.Takes (c :: (cs ++ [d])) st st' := by
  rcases Takes.separated items Before After hitem hcomma hcs hmid with ⟨hnil, htakes⟩ | ⟨last, htakes, hlast⟩
  · exact Takes.enclosed hm hopen htakes hn (hempty hnil)
  · exact Takes.enclosed hm hopen htakes hn (hclose last hlast)

end

/-! ### Passing over a value -/

def passed (p : Passing) (d : δ) : Stage δ α := if p.finished then .nextName d else .passing p d

def BeforeValue (frames : List Frame) (d : δ) (st : Stage δ α) : Prop :=
  st = .passing ⟨.value, frames⟩ d ∨ st = .passing ⟨.firstElement, frames⟩ d

/-- Whether a text is passed over wherever a value may begin. -/
def Passes (s : Shape δ α) (d : δ) (cs : List Char) : Prop :=
  ∀ frames st, BeforeValue frames d st → s.Takes cs st (passed ⟨.separator, frames⟩ d)

theorem passes_array {d : δ} {cs : List Char} {vs : List (List Char)} (h : ArrayText cs vs)
    (hvs : ∀ v ∈ vs, s.Passes d v) : s.Passes d cs := by
  intro frames st hst
  obtain ⟨inner, hinner, rfl⟩ := h
  have hopen : s.step st (.mark .openList) = .ok (.passing ⟨.firstElement, .array :: frames⟩ d) := by
    rcases hst with rfl | rfl <;> rfl
  refine Takes.compound vs (fun _ => BeforeValue (.array :: frames) d)
    (fun _ st => st = .passing ⟨.separator, .array :: frames⟩ d) ?item ?comma hinner rfl hopen (Or.inr rfl) rfl
    (fun _ => rfl) ?close
  case item =>
    intro done v rest cs st hsplit hcs hst
    exact ⟨_, (hvs v (mem_of_eq_append hsplit) _ st hst).padded hcs, rfl⟩
  case comma =>
    rintro done v rest st - rfl
    exact ⟨_, rfl, Or.inl rfl⟩
  case close =>
    rintro last rfl
    rfl

theorem passes_object {d : δ} {cs : List Char} {ms : List (List Piece × List Char)} (h : ObjectText StringText cs ms)
    (hms : ∀ m ∈ ms, s.Passes d m.2) : s.Passes d cs := by
  intro frames st hst
  obtain ⟨inner, hinner, rfl⟩ := h
  have hopen : s.step st (.mark .openRecord) = .ok (.passing ⟨.firstName, .object :: frames⟩ d) := by
    rcases hst with rfl | rfl <;> rfl
  refine Takes.compound ms
    (fun _ st => st = .passing ⟨.firstName, .object :: frames⟩ d ∨ st = .passing ⟨.name, .object :: frames⟩ d)
    (fun _ st => st = .passing ⟨.separator, .object :: frames⟩ d) ?item ?comma hinner rfl hopen (Or.inl rfl) rfl
    (fun _ => rfl) ?close
  case item =>
    intro done m rest cs st hsplit hcs hst
    obtain ⟨quoted, before, behind, hquoted, hbefore, hbehind, rfl⟩ := hcs
    have hname : s.Takes before st (.passing ⟨.colon, .object :: frames⟩ d) := by
      rcases hst with rfl | rfl <;> exact (Takes.token (Reads.string hquoted) rfl).padded hbefore
    have hvalue := hms m (mem_of_eq_append hsplit) (.object :: frames) _ (Or.inl rfl)
    exact ⟨_, hname.append_mark rfl rfl (hvalue.padded hbehind), rfl⟩
  case comma =>
    rintro done m rest st - rfl
    exact ⟨_, rfl, Or.inr rfl⟩
  case close =>
    rintro last rfl
    rfl

theorem passes_of_isValue {cs : List Char} (h : IsValue cs) (d : δ) : s.Passes d cs := by
  induction h with
  | word w =>
    rintro frames st (rfl | rfl)
    · exact Takes.token (Reads.word w) rfl
    · exact Takes.token (Reads.word w) rfl
  | number h =>
    rintro frames st (rfl | rfl)
    · exact Takes.token (Reads.number h) rfl
    · exact Takes.token (Reads.number h) rfl
  | string h =>
    rintro frames st (rfl | rfl)
    · exact Takes.token (Reads.string h) rfl
    · exact Takes.token (Reads.string h) rfl
  | array h _ ih => exact passes_array h ih
  | object h _ ih => exact passes_object h ih

/-! ### Fields -/

def names (s : Shape δ α) : List String := s.fields.map (·.name)

theorem enterName_of_mem {ps : List Piece} {name : String} (hps : Denotes ps name.toList) {d : δ} (h : name ∈ s.names)
    (hd : ∀ f ∈ s.fields, f.name = name → f.present d = false) :
    ∃ f ∈ s.fields, f.name = name ∧ s.enterName d (.text ps none) = .ok (.colon (some f) d) := by
  rw [enterName, joined_of_denotes hps]
  dsimp only
  cases hfind : s.fields.find? fun f => f.name.toList = name.toList with
  | none =>
    obtain ⟨f, hf, rfl⟩ := List.mem_map.mp h
    have hne := List.find?_eq_none.mp hfind f hf
    simp at hne
  | some f =>
    have hf : f ∈ s.fields := List.mem_of_find?_eq_some hfind
    have hname : f.name = name := String.toList_inj.mp (by simpa using List.find?_some hfind)
    exact ⟨f, hf, hname, by simp [hd f hf hname]⟩

theorem enterName_of_not_mem {ps : List Piece} {name : String} (hps : Denotes ps name.toList) (d : δ)
    (h : name ∉ s.names) : s.enterName d (.text ps none) = .ok (.colon none d) := by
  have hfind : (s.fields.find? fun f => f.name.toList = name.toList) = none := by
    refine List.find?_eq_none.mpr fun f hf => ?_
    have hne : f.name ≠ name := fun heq => h (heq ▸ List.mem_map_of_mem hf)
    simpa using fun heq => hne (String.toList_inj.mp heq)
  rw [enterName, joined_of_denotes hps]
  dsimp only
  rw [hfind]

section
variable {Spells : String → List Char → Prop} {ms : List (String × List Char)}

/-- Members among which each field is once, and otherwise any values under names that are no fields. -/
def HoldsFields (s : Shape δ α) (Spells : String → List Char → Prop) (ms : List (String × List Char)) : Prop :=
  ∃ known others, ms.Perm (known ++ others) ∧ known.map Prod.fst = s.names ∧ (∀ m ∈ known, Spells m.1 m.2) ∧
    ∀ m ∈ others, m.1 ∉ s.names ∧ IsValue m.2

theorem HoldsFields.filter_names (h : s.HoldsFields Spells ms) :
    ((ms.map Prod.fst).filter (· ∈ s.names)).Perm s.names := by
  obtain ⟨known, others, hms, hknown, -, hothers⟩ := h
  have hfields : s.names.filter (· ∈ s.names) = s.names := List.filter_eq_self.mpr (by simp)
  have hnone : (others.map Prod.fst).filter (· ∈ s.names) = [] := by
    refine List.filter_eq_nil_iff.mpr fun name hname => ?_
    obtain ⟨m, hm, rfl⟩ := List.mem_map.mp hname
    simpa using (hothers m hm).1
  have hperm := (hms.map Prod.fst).filter (· ∈ s.names)
  rwa [List.map_append, hknown, List.filter_append, hfields, hnone, List.append_nil] at hperm

theorem HoldsFields.isValue (h : s.HoldsFields Spells ms) {m : String × List Char}
    (hm : m ∈ ms) : (m.1 ∈ s.names → Spells m.1 m.2) ∧ (m.1 ∉ s.names → IsValue m.2) := by
  obtain ⟨known, others, hms, hknown, hspells, hothers⟩ := h
  rcases List.mem_append.mp (hms.subset hm) with hm | hm
  · exact ⟨fun _ => hspells m hm, fun hname => absurd (hknown ▸ List.mem_map_of_mem hm) hname⟩
  · exact ⟨fun hname => absurd hname (hothers m hm).1, fun _ => (hothers m hm).2⟩

theorem HoldsFields.not_mem_done (hnodup : s.names.Nodup) {done rest : List (String × List Char)}
    {m : String × List Char} (h : s.HoldsFields Spells (done ++ m :: rest)) (hm : m.1 ∈ s.names) :
    m.1 ∉ done.map Prod.fst := by
  intro hdone
  have hnodup := h.filter_names.nodup_iff.mpr hnodup
  rw [List.map_append, List.map_cons, List.filter_append, List.filter_cons_of_pos (by simpa using hm)] at hnodup
  have hbefore : m.1 ∈ (done.map Prod.fst).filter (· ∈ s.names) := List.mem_filter.mpr ⟨hdone, by simpa using hm⟩
  exact (List.nodup_append.mp hnodup).2.2 m.1 hbefore m.1 List.mem_cons_self rfl

end

/-- The drafts on the way to a record, each given by the names of what has been read, when the values of the fields are
spelled as wanted. -/
structure Filling (s : Shape δ α) (Spells : String → List Char → Prop) (a : α) where
  draft : List String → δ
  blank : s.blank = draft []
  nodup : s.names.Nodup
  present : ∀ f ∈ s.fields, ∀ seen, f.name ∉ seen → f.present (draft seen) = false
  read : ∀ f ∈ s.fields, ∀ cs, Spells f.name cs → ∃ t, Reads cs [t] ∧ (∀ m, t ≠ .mark m) ∧
    ∀ seen, f.read t (draft seen) = .ok (draft (seen ++ [f.name]))
  skip : ∀ name seen, name ∉ s.names → draft (seen ++ [name]) = draft seen
  finish : ∀ seen, (∀ f ∈ s.fields, f.name ∈ seen) → s.finish (draft seen) = some a

namespace Filling
variable {Spells : String → List Char → Prop} {a : α} (F : Filling s Spells a)
include F

theorem complete_eq {seen : List String} (h : ∀ f ∈ s.fields, f.name ∈ seen) :
    s.complete (F.draft seen) = .ok (.complete a) := by
  rw [complete, F.finish seen h]

/-- A member of an object: a field that has not been read before, or a name that is no field. -/
theorem takes_member {cs : List Char} {m : String × List Char} (hcs : MemberText Quotes cs m) {seen : List String}
    (hfield : m.1 ∈ s.names → m.1 ∉ seen ∧ Spells m.1 m.2) (hother : m.1 ∉ s.names → IsValue m.2)
    (hst : st = .firstName (F.draft seen) ∨ st = .name (F.draft seen)) :
    s.Takes cs st (.nextName (F.draft (seen ++ [m.1]))) := by
  obtain ⟨quoted, before, behind, ⟨ps, htext, hps⟩, hbefore, hbehind, rfl⟩ := hcs
  have hstep : s.step st (.text ps none) = s.enterName (F.draft seen) (.text ps none) := by
    rcases hst with rfl | rfl <;> rfl
  by_cases hm : m.1 ∈ s.names
  · -- the value is read into the draft
    obtain ⟨hnew, hspells⟩ := hfield hm
    obtain ⟨f, hf, hname, henter⟩ := enterName_of_mem hps hm fun f hf heq => F.present f hf seen (heq ▸ hnew)
    obtain ⟨t, ht, -, hread⟩ := F.read f hf m.2 (hname ▸ hspells)
    have hvalue : s.step (.member f (F.draft seen)) t = .ok (.nextName (F.draft (seen ++ [m.1]))) := by
      rw [step, hread, hname]
      rfl
    exact ((Takes.token (Reads.string htext) (hstep.trans henter)).padded hbefore).append_mark rfl rfl
      ((Takes.token ht hvalue).padded hbehind)
  · -- the value is passed over
    have henter := enterName_of_not_mem hps (F.draft seen) hm
    rw [F.skip m.1 seen hm]
    exact ((Takes.token (Reads.string htext) (hstep.trans henter)).padded hbefore).append_mark rfl rfl
      ((passes_of_isValue (hother hm) _ [] _ (Or.inl rfl)).padded hbehind)

/-- An object gives the record of its fields, in whatever order they stand and among whatever others. -/
theorem parse_object {text : String} {cs : List Char} {ms : List (String × List Char)} (hms : s.HoldsFields Spells ms)
    (hcs : ObjectText Quotes cs ms) (htext : Padded text.toList cs) : s.parse text = .ok a := by
  obtain ⟨inner, hinner, rfl⟩ := hcs
  have hopen : s.step .start (.mark .openRecord) = .ok (.firstName (F.draft [])) := by
    rw [step, F.blank]
  have hall : ∀ f ∈ s.fields, f.name ∈ ms.map Prod.fst := fun f hf =>
    (List.mem_filter.mp (hms.filter_names.mem_iff.mpr (List.mem_map_of_mem hf))).1
  refine parse_of_takes (Takes.padded (Takes.compound ms
    (fun done st => st = .firstName (F.draft (done.map Prod.fst)) ∨ st = .name (F.draft (done.map Prod.fst)))
    (fun done st => st = .nextName (F.draft (done.map Prod.fst))) ?item ?comma hinner rfl hopen (Or.inl rfl) rfl
    ?empty ?close) htext)
  case item =>
    intro done m rest cs st hsplit hcs hst
    have hm := hms.isValue (mem_of_eq_append hsplit)
    have hnew : m.1 ∈ s.names → m.1 ∉ done.map Prod.fst := HoldsFields.not_mem_done F.nodup (hsplit ▸ hms)
    have htakes := F.takes_member hcs (fun hname => ⟨hnew hname, hm.1 hname⟩) hm.2 hst
    refine ⟨_, htakes, ?_⟩
    rw [List.map_append]
    rfl
  case comma =>
    rintro done m rest st - rfl
    exact ⟨_, rfl, Or.inr rfl⟩
  case empty =>
    rintro rfl
    exact F.complete_eq hall
  case close =>
    rintro last rfl
    exact F.complete_eq hall

theorem takes_element {cs v : List Char} (hcs : Padded cs v) {f : Field δ} {left : List (Field δ)} (hf : f ∈ s.fields)
    (hv : Spells f.name v) {seen : List String}
    (hst : st = .firstElement (f :: left) (F.draft seen) ∨ st = .element f left (F.draft seen)) :
    s.Takes cs st (.nextElement left (F.draft (seen ++ [f.name]))) := by
  obtain ⟨t, ht, hmark, hread⟩ := F.read f hf v hv
  have hstep : s.step st t = enterElement f left (F.draft seen) t := by
    rcases hst with rfl | rfl
    · rw [step]
      exact fun h => hmark .closeList h
    · rfl
  refine (Takes.token ht (hstep.trans ?_)).padded hcs
  rw [enterElement, hread]
  rfl

omit F in
/-- Of the fields that are left the first is the one whose value comes next. -/
theorem next_field {known done rest : List (String × List Char)} {m : String × List Char} {pre left : List (Field δ)}
    (hknown : known.map Prod.fst = s.names) (hm : known = done ++ m :: rest) (hfields : s.fields = pre ++ left)
    (hpre : pre.map (·.name) = done.map Prod.fst) : ∃ f left', left = f :: left' ∧ f.name = m.1 := by
  have hnames : done.map Prod.fst ++ left.map (·.name) = done.map Prod.fst ++ m.1 :: rest.map Prod.fst := by
    rw [← hpre, ← List.map_append, ← hfields, ← names, ← hknown, hm, List.map_append, hpre]
    rfl
  obtain ⟨f, left', hleft, hf, -⟩ := List.map_eq_cons_iff.mp (List.append_cancel_left hnames)
  exact ⟨f, left', hleft, hf⟩

theorem parse_array {text : String} {cs : List Char} (known : List (String × List Char))
    (hknown : known.map Prod.fst = s.names) (hspells : ∀ m ∈ known, Spells m.1 m.2)
    (hcs : ArrayText cs (known.map Prod.snd)) (htext : Padded text.toList cs) : s.parse text = .ok a := by
  obtain ⟨inner, hinner, rfl⟩ := hcs
  have hopen : s.step .start (.mark .openList) = .ok (.firstElement s.fields (F.draft [])) := by
    rw [step, F.blank]
  have hall : ∀ f ∈ s.fields, f.name ∈ known.map Prod.fst := fun f hf => hknown ▸ List.mem_map_of_mem hf
  refine parse_of_takes (Takes.padded (Takes.compound known
    (fun done st => ∃ pre left, s.fields = pre ++ left ∧ pre.map (·.name) = done.map Prod.fst ∧
      (st = .firstElement left (F.draft (done.map Prod.fst)) ∨
        ∃ f left', left = f :: left' ∧ st = .element f left' (F.draft (done.map Prod.fst))))
    (fun done st => ∃ pre left, s.fields = pre ++ left ∧ pre.map (·.name) = done.map Prod.fst ∧
      st = .nextElement left (F.draft (done.map Prod.fst))) ?item ?comma hinner.of_map rfl hopen
    ⟨[], s.fields, rfl, rfl, Or.inl rfl⟩ rfl ?empty ?close) htext)
  case item =>
    rintro done m rest cs st hsplit hcs ⟨pre, left, hfields, hpre, hst⟩
    obtain ⟨f, left', rfl, hf⟩ := next_field hknown hsplit hfields hpre
    have hstage : st = .firstElement (f :: left') (F.draft (done.map Prod.fst)) ∨
        st = .element f left' (F.draft (done.map Prod.fst)) := by
      rcases hst with rfl | ⟨g, left, hleft, rfl⟩
      · exact Or.inl rfl
      · cases hleft
        exact Or.inr rfl
    have hspelled : Spells f.name m.2 := hf ▸ hspells m (mem_of_eq_append hsplit)
    have htakes := F.takes_element hcs (by simp [hfields]) hspelled hstage
    refine ⟨_, htakes, pre ++ [f], left', by simp [hfields], by simp [hpre, hf], ?_⟩
    rw [hf, List.map_append]
    rfl
  case comma =>
    rintro done m rest st hsplit ⟨pre, left, hfields, hpre, rfl⟩
    obtain ⟨f, left', rfl, -⟩ := next_field hknown hsplit hfields hpre
    exact ⟨_, rfl, pre, f :: left', hfields, hpre, Or.inr ⟨f, left', rfl, rfl⟩⟩
  case empty =>
    rintro rfl
    exact F.complete_eq hall
  case close =>
    rintro last ⟨pre, left, -, -, rfl⟩
    exact F.complete_eq hall

end Filling
end Shape
end Kademlia.Json
