import TemplateBinding.Attribute.Warnings
import TemplateBinding.Proofs.Attribute.Scanning
import TemplateBinding.Proofs.Attribute.Sessions
import TemplateBinding.Proofs.Grammar.Unbroken
import TemplateBinding.Proofs.Template.Parts

/-! Chains are meant for listeners, but bindings and interpolations are read by the same
parser. A chain gets into one of them where the text that is read for it is a chain, and
nowhere else. The segments of `options` have no semicolon left to make one. -/
namespace TemplateBinding

open Grammar

def Entry.Unchained (entry : Entry) : Prop := ∀ s ∈ entry.sources, s.2.isChain = false

def Instruction.Unchained (i : Instruction) : Prop := i.Holds fun _ entry => entry.Unchained

/-- The chain of a listener is no fault. -/
def Meaning.Unchained : Meaning → Prop
  | .interpreted (.instruction i) => i.Unchained
  | .interpolated i => ∀ e ∈ i.expressions, e.isChain = false
  | .interpreted (.listener _) | .interpreted (.name _) => True

structure Reply.Unchained (r : Reply) : Prop where
  held : r.instruction.Unchained
  given : ∀ m, r.result = .ok (some m) → m.Unchained

/-! The texts that are read for bindings and interpolations. -/

def boundSources (keyword value : Text) : List Text :=
  match Command.ofKeyword? keyword with
  | some (.property p) => (p.source? value).toList
  | _ => []

def plainSources (name value : Text) : List Text :=
  if name = refName then [] else Template.sources value

def Request.sources : Request → List Text
  | .ofCommand keyword _ value => boundSources keyword value
  | .ofAttribute name value =>
    match splitCommand? name with
    | some (_, keyword) => boundSources keyword value
    | none => plainSources name value

def Chainless (sources : List Text) : Prop :=
  ∀ source ∈ sources, ∀ e, Expr.parse source = .ok e → e.isChain = false

section Kept

variable {ctx : Context} {name value keyword key : Text} {entry : Entry}

theorem unchained_of_commandWrites (chainless : Chainless (boundSources keyword value))
    (writes : CommandWrites ctx keyword name value key entry) : entry.Unchained := by
  obtain ⟨p, known, writes⟩ := writes
  cases writes with
  | loopItem => exact fun s member => nomatch member
  | @bound _ source e only read =>
    have member : source ∈ boundSources keyword value := by simp [boundSources, known, only]
    exact List.forall_mem_singleton.2 (chainless source member e read)

theorem unchained_of_interpolated {i : Interpolation} (notRef : name ≠ refName)
    (chainless : Chainless (plainSources name value))
    (read : (interpolated ctx name value).result = .ok (some i)) :
    ∀ e ∈ i.expressions, e.isChain = false := by
  intro e member
  have sources := (exists_of_forall₂ (expressions_of_interpolated read)).2
  obtain ⟨source, among, parsed⟩ := sources e member
  refine chainless source ?_ e parsed
  unfold plainSources
  rwa [if_neg notRef]

theorem unchained_of_attributeWrites
    (chainless : Chainless (Request.ofAttribute name value).sources)
    (writes : AttributeWrites ctx name value key entry) : entry.Unchained := by
  cases writes with
  | command parts writes =>
    simp only [Request.sources, parts] at chainless
    exact unchained_of_commandWrites chainless writes
  | plain whole writes =>
    simp only [Request.sources, whole] at chainless
    cases writes with
    | element | literal => exact fun s member => nomatch member
    | interpolation notRef read =>
      have unchained := unchained_of_interpolated notRef chainless read
      exact List.forall_mem_map.2 unchained

end Kept

theorem mem_of_boundSources {keyword value : Text} :
    ∀ source ∈ boundSources keyword value, ∀ c ∈ source, c ∈ value := by
  intro source member c inside
  unfold boundSources at member
  split at member
  · rename_i p _
    cases p with
    | loop =>
      obtain ⟨⟨item, items⟩, form, rfl⟩ := Option.map_eq_some_iff.1 (Option.mem_toList.1 member)
      rw [(firstCut_of_loopForm? form).whole]
      exact List.mem_append_right _ inside
    | oneWay | twoWay | oneTime | bind =>
      cases Option.mem_toList.1 member
      exact inside
  · cases member

theorem mem_of_plainSources {name value : Text} :
    ∀ source ∈ plainSources name value, ∀ c ∈ source, c ∈ value := by
  intro source member
  unfold plainSources at member
  split at member
  · cases member
  · exact mem_of_sources member

theorem chainless_of_segment {value : Text} {segment : Text × Text}
    (member : segment ∈ Segments.split value) :
    Chainless (Request.ofAttribute segment.1 segment.2).sources := by
  have free := Segments.split_free member
  refine fun source among e => Expr.isChain_of_not_mem fun inside => free ?_
  simp only [Request.sources] at among
  split at among
  · exact mem_of_boundSources source among _ inside
  · exact mem_of_plainSources source among _ inside

theorem unchained_of_writes {ctx : Context} {r : Request} (chainless : Chainless r.sources)
    (key : Text) (entry : Entry)
    (writes : r.Writes ctx key entry ∨ SegmentWrites ctx r.value key entry) : entry.Unchained := by
  rcases writes with own | ⟨segment, member, writes⟩
  · cases r with
    | ofCommand keyword name value => exact unchained_of_commandWrites chainless own
    | ofAttribute name value => exact unchained_of_attributeWrites chainless own
  · exact unchained_of_attributeWrites (chainless_of_segment member) writes

theorem Request.Means.unchained {ctx : Context} {existing : Option Instruction} {r : Request}
    {m : Option Meaning} (means : r.Means ctx existing m) (chainless : Chainless r.sources)
    (instructions : ∀ j, m = some (.interpreted (.instruction j)) → j.Unchained) :
    ∀ given ∈ m, given.Unchained := by
  induction means with
  | unknown => exact nofun
  | @property _ _ _ _ j | @options _ _ _ j =>
    rintro _ ⟨⟩
    exact instructions j rfl
  | listener | ref | element =>
    rintro _ ⟨⟩
    trivial
  | dotted parts _ ih =>
    simp only [sources, parts] at chainless
    exact ih chainless instructions
  | @plain name value found whole notRef read =>
    simp only [sources, whole] at chainless
    rintro given isGiven
    obtain ⟨i, rfl, rfl⟩ := Option.map_eq_some_iff.1 isGiven
    exact unchained_of_interpolated notRef chainless read

theorem Call.reply_unchained (c : Call) {i : Instruction} (held : i.Unchained)
    (chainless : (c.reply i).result.isOk = true → Chainless c.request.sources) :
    (c.reply i).Unchained := by
  cases result : (c.reply i).result with
  | error e =>
    refine ⟨(c.reply_failed result).symm ▸ held, fun m given => ?_⟩
    rw [result] at given
    cases given
  | ok m =>
    have chainless := chainless (by rw [result]; rfl)
    have kept := (c.reply_kept (unchained_of_writes chainless) held).1
    refine ⟨kept, fun m given => ?_⟩
    obtain ⟨⟨existing, means⟩, instruction⟩ := c.means_of_reply given
    refine means.unchained chainless (fun j same => ?_) m rfl
    rw [← instruction j (Option.some.inj same)]
    exact kept

/-! A text that is a chain does make one. -/

section Chained

variable {ctx : Context} {name value source : Text} {target : Instruction}

theorem not_unchained_of_mem {i : Instruction} {key : Text} {entry : Entry} {s : Text × Expr}
    (member : (key, entry) ∈ i.entries) (among : s ∈ entry.sources)
    (isChain : s.2.isChain = true) : ¬ i.Unchained := by
  intro held
  have plain := held _ member s among
  rw [isChain] at plain
  cases plain

theorem PropertyCommand.write_done {p : PropertyCommand} (only : p.source? value = some source)
    (done : (p.write ctx name value target).2.result = .ok ()) :
    ∃ e, Expr.parse source = .ok e ∧
      (name, p.bound ctx name e) ∈ (p.write ctx name value target).1.entries := by
  cases p with
  | loop =>
    obtain ⟨⟨item, items⟩, form, rfl⟩ := Option.map_eq_some_iff.1 only
    simp only [write, form] at done ⊢
    obtain ⟨e, read, -, same⟩ := Writing.bind_ofRun_done done
    have entries := congrArg Instruction.entries same
    exact ⟨e, parsed_result.1 read, entries.symm ▸ mem_put_self⟩
  | oneWay | twoWay | oneTime | bind =>
    cases only
    obtain ⟨e, read, -, same⟩ := Writing.bind_ofRun_done done
    have entries := congrArg Instruction.entries same
    exact ⟨e, parsed_result.1 read, entries.symm ▸ mem_put_self⟩

end Chained

theorem Request.Means.chained {ctx : Context} {existing : Option Instruction} {r : Request}
    {m : Option Meaning} (means : r.Means ctx existing m) {source : Text}
    (member : source ∈ r.sources) (joined : Joined (tokens source)) (target : Instruction) :
    (∃ given ∈ m, ¬ given.Unchained) ∧ ¬ (r.left target m).Unchained := by
  induction means with
  | @property keyword name value p j known written =>
    simp only [sources, boundSources, known, Option.mem_toList] at member
    obtain ⟨done, rfl⟩ := Writing.extend_eq_ok_iff.1 written
    obtain ⟨e, read, among⟩ := PropertyCommand.write_done member done
    have isChain := (Expr.isChain_iff read).2 joined
    have notHeld := not_unchained_of_mem among List.mem_cons_self isChain
    refine ⟨⟨_, rfl, notHeld⟩, ?_⟩
    simp only [left, known]
    exact notHeld
  | unknown known | ref known | options known =>
    simp [sources, boundSources, known] at member
  | listener known which =>
    rcases which with rfl | rfl <;> simp [sources, boundSources, known] at member
  | dotted parts _ ih =>
    simp only [sources, parts] at member
    simp only [left, parts]
    exact ih member
  | element whole isRef =>
    simp only [sources, whole, plainSources, if_pos isRef] at member
    cases member
  | @plain name value found whole notRef read =>
    simp only [sources, whole, plainSources, if_neg notRef] at member
    obtain ⟨i, e, rfl, among, parsed⟩ := expression_of_source read member
    have isChain := (Expr.isChain_iff parsed).2 joined
    refine ⟨⟨_, rfl, fun unchained => ?_⟩, ?_⟩
    · have plain := unchained e among
      rw [isChain] at plain
      cases plain
    · simp only [left, whole]
      have listed : (i.target, e) ∈ (Entry.interpolation i).sources := List.mem_map_of_mem among
      exact not_unchained_of_mem mem_put_self listed isChain

theorem Call.reply_chained (c : Call) {i : Instruction} (done : (c.reply i).result.isOk = true)
    {source : Text} (member : source ∈ c.request.sources) (joined : Joined (tokens source)) :
    ¬ (c.reply i).Unchained := by
  intro unchained
  obtain ⟨ctx, request, delivery⟩ := c
  cases result : (Call.reply ⟨ctx, request, delivery⟩ i).result with
  | error e =>
    rw [result] at done
    cases done
  | ok m =>
    cases delivery with
    | apart | extended =>
      have means := means_of_ok (Reply.ofMeaning_result.symm.trans result)
      obtain ⟨⟨given, isGiven, chained⟩, -⟩ := means.chained member joined i
      cases isGiven
      exact chained (unchained.given given result)
    | inPlace =>
      -- Nothing is handed back here: the chain shows in what the update leaves.
      obtain ⟨m', means, left⟩ := update_done (Reply.ofUpdate_ok result).1
      obtain ⟨-, chained⟩ := means.chained member joined i
      rw [← left] at chained
      exact chained unchained.held

theorem chainless_of_unjoined {sources : List Text}
    (unjoined : ¬ ∃ source ∈ sources, Joined (tokens source)) : Chainless sources := by
  intro source member e read
  rw [← Bool.not_eq_true, Expr.isChain_iff read]
  exact fun joined => unjoined ⟨source, member, joined⟩

/-- In every session, a chain is given or held outside a listener exactly if some call that
succeeds has one in the text that it reads for a binding or an interpolation itself. -/
theorem session_chained_iff (name : Text) (calls : List Call) :
    (∃ s ∈ session calls (Instruction.empty name), ¬ s.reply.Unchained) ↔
      ∃ s ∈ session calls (Instruction.empty name), s.reply.result.isOk = true ∧
        ∃ source ∈ s.call.request.sources, Joined (tokens source) := by
  constructor
  · contrapose!
    intro unjoined
    -- A call that fails keeps the instruction, whatever its text is.
    refine session_steps Instruction.Unchained (fun call i held unjoined => ?_)
      (Instruction.holds_empty name) unjoined
    have unchained := call.reply_unchained held fun done =>
      chainless_of_unjoined fun ⟨source, member, joined⟩ => unjoined done source member joined
    exact ⟨unchained.held, unchained⟩
  · rintro ⟨s, step, done, source, member, joined⟩
    have chained := s.call.reply_chained (i := s.before)
    rw [← session_reply s step] at chained
    exact ⟨s, step, chained done member joined⟩

/-- A property can be bound to a chain. -/
theorem session_chained_bind :
    ¬ ∀ s ∈ session [⟨{ tag := "input" }, .ofCommand "bind" "value" "a; b", .inPlace⟩]
      (Instruction.empty "input"), s.reply.Unchained := by
  intro all
  have unchained := (all _ List.mem_cons_self).held
  have found : ((Call.reply ⟨{ tag := "input" }, .ofCommand "bind" "value" "a; b", .inPlace⟩
      (Instruction.empty "input")).instruction.entries.any fun w =>
        w.2.sources.any fun s => s.2.isChain) = true := by decide +kernel
  obtain ⟨w, member, found⟩ := List.any_eq_true.1 found
  obtain ⟨s, among, isChain⟩ := List.any_eq_true.1 found
  exact not_unchained_of_mem member among isChain unchained

end TemplateBinding
