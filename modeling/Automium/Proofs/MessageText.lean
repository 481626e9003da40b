import Automium.Slack.Message

/-!
# The text of a message to Slack

Of the body of a request the message is known (`webhookJson_injective`), and so are the Service and the
phase that a notification is about (`body_inj`).
-/

namespace Automium

open Data

theorem string_delimited : Delimited (fun s : String => Go.quote (.ofString s)) id :=
  (Go.quote_delimited.comap Go.Text.ofString).mono fun _ _ => Go.Text.runes_ofString_inj.mp

theorem bool_delimited : Delimited (fun b : Bool => (if b then "true" else "false").toList) id := by
  intro a b x y he
  cases a <;> cases b <;> simp_all

theorem fieldJson_delimited : Delimited fieldJson id := by
  have htitle := string_delimited.comap fun field : String × String × Bool => field.1
  have hvalue := string_delimited.comap fun field : String × String × Bool => field.2.1
  have hshort := bool_delimited.comap fun field : String × String × Bool => field.2.2
  have hmembers : ∀ m ∈ fieldMembers, Delimited m.2 m.2 := by
    simp only [fieldMembers, List.forall_mem_cons]
    exact ⟨htitle.self, hvalue.self, hshort.self, List.forall_mem_nil _⟩
  refine (Go.object_delimited hmembers).mono fun p q h => ?_
  simp only [fieldMembers, List.map_cons, List.map_nil, List.cons.injEq, and_true] at h
  exact Prod.ext (htitle.inj h.1) (Prod.ext (hvalue.inj h.2.1) (hshort.inj h.2.2))

theorem attachmentJson_delimited : Delimited attachmentJson id := by
  have hfallback := string_delimited.comap WebhookMessageAttachment.fallback
  have htext := string_delimited.comap WebhookMessageAttachment.text
  have hpretext := string_delimited.comap WebhookMessageAttachment.pretext
  have hcolor := string_delimited.comap WebhookMessageAttachment.color
  have hfields := (Go.array_delimited fieldJson_delimited fun _ => ⟨_, rfl⟩).comap
    WebhookMessageAttachment.fields
  have hmembers : ∀ m ∈ attachmentMembers, Delimited m.2 m.2 := by
    simp only [attachmentMembers, List.forall_mem_cons]
    exact ⟨hfallback.self, htext.self, hpretext.self, hcolor.self, hfields.self,
      List.forall_mem_nil _⟩
  refine (Go.object_delimited hmembers).mono fun p q h => ?_
  simp only [attachmentMembers, List.map_cons, List.map_nil, List.cons.injEq, and_true] at h
  obtain ⟨h₁, h₂, h₃, h₄, h₅⟩ := h
  have hlist := hfields.inj h₅
  rw [List.map_id, List.map_id] at hlist
  rw [id, id, WebhookMessageAttachment.mk.injEq]
  exact ⟨hfallback.inj h₁, htext.inj h₂, hpretext.inj h₃, hcolor.inj h₄, hlist⟩

theorem webhookJson_delimited : Delimited webhookJson id := by
  have hitems := Go.array_delimited attachmentJson_delimited fun _ => ⟨_, rfl⟩
  have hmembers : ∀ m ∈ webhookMembers, Delimited m.2 m.2 := by
    simp only [webhookMembers, List.forall_mem_cons]
    exact ⟨hitems.self, List.forall_mem_nil _⟩
  have hobject : Delimited webhookJson fun p => webhookMembers.map fun m => m.2 p :=
    Go.object_delimited hmembers
  refine hobject.mono fun p q h => ?_
  simp only [webhookMembers, List.map_cons, List.map_nil, List.cons.injEq, and_true] at h
  have hlist : p.map id = q.map id := hitems.inj h
  rwa [List.map_id, List.map_id] at hlist

/-- The text of a message tells the message. -/
theorem webhookJson_injective : Function.Injective webhookJson :=
  fun _ _ h => webhookJson_delimited.inj h

/-- The message about a phase. -/
def statusMessage (svcName phase : String) : WebhookMessageAttachment where
  fallback := "Got a status update for service: " ++ svcName
  text := "Got a status update for service: " ++ svcName
  color := phaseColor phase
  fields := [("Current status:", phase, false)]

/-- The body of the request tells the Service and the phase. -/
theorem body_inj {svcName svcName' phase phase' : String}
    (h : webhookJson [statusMessage svcName phase] = webhookJson [statusMessage svcName' phase']) :
    svcName = svcName' ∧ phase = phase' := by
  have hmsg := (List.cons.inj (webhookJson_injective h)).1
  have htext : _ ++ svcName = _ ++ svcName' := congrArg WebhookMessageAttachment.text hmsg
  have hfields : [(_, phase, false)] = [(_, phase', false)] :=
    congrArg WebhookMessageAttachment.fields hmsg
  have hfield := Prod.mk.inj (List.cons.inj hfields).1
  exact ⟨(String.append_right_inj _).mp htext, (Prod.mk.inj hfield.2).1⟩

end Automium
