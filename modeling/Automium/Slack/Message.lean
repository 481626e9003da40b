import Automium.Effect.Interp
import Automium.Effect.Sum
import Automium.Go.Marshal
import Automium.Go.Url
import Automium.Utils.Service

/-!
# `pkg/slack/message.go`

The client that sends a notification through a webhook. The rest of the model takes it as one
operation, `Request.slack`; here it is a program that makes an HTTP request, and `sendThrough` puts
it in the place of the operation.

A request is one call (`post`): `http.NewRequest` and `Client.Do`. Log lines are left out.
-/

namespace Automium

open Effect Data

/-! ## The text of a message -/

/-- `WebhookMessageField`, by title, value and `Short`. -/
def fieldMembers : List (String × (String × String × Bool → List Char)) :=
  [("title", fun field => Go.quote (.ofString field.1)),
    ("value", fun field => Go.quote (.ofString field.2.1)),
    ("short", fun field => (if field.2.2 then "true" else "false").toList)]

def fieldJson (field : String × String × Bool) : List Char :=
  Go.object (fieldMembers.map fun m => (m.1, m.2 field))

/-- `WebhookMessageAttachment`. Its fields are never a nil slice. -/
def attachmentMembers : List (String × (WebhookMessageAttachment → List Char)) :=
  [("fallback", fun attachment => Go.quote (.ofString attachment.fallback)),
    ("text", fun attachment => Go.quote (.ofString attachment.text)),
    ("pretext", fun attachment => Go.quote (.ofString attachment.pretext)),
    ("color", fun attachment => Go.quote (.ofString attachment.color)),
    ("fields", fun attachment => Go.array (attachment.fields.map fieldJson))]

def attachmentJson (attachment : WebhookMessageAttachment) : List Char :=
  Go.object (attachmentMembers.map fun m => (m.1, m.2 attachment))

/-- `WebhookMessage`. -/
def webhookMembers : List (String × (List WebhookMessageAttachment → List Char)) :=
  [("attachments", fun attachments => Go.array (attachments.map attachmentJson))]

/-- `json.Marshal` of a `WebhookMessage`. -/
def webhookJson (attachments : List WebhookMessageAttachment) : List Char :=
  Go.object (webhookMembers.map fun m => (m.1, m.2 attachments))

/-! ## The client -/

structure WebhookRequest where
  method : String
  url : String
  contentType : String
  body : List Char
  deriving DecidableEq

structure WebhookResponse where
  statusCode : Nat
  /-- What `ioutil.ReadAll` reads of the body. -/
  body : Except Error String

/-- The interface of the webhook. -/
abbrev Webhook : Sig := ⟨WebhookRequest, fun _ => Except Error WebhookResponse⟩

/-- The interface of the client. -/
abbrev SlackApi : Sig := Api.sum Webhook

abbrev SlackCtl (α : Type) := Prog SlackApi α

def post (req : WebhookRequest) : SlackCtl (Except Error WebhookResponse) := .call (.inr req) .ret

@[simp] theorem post_bind {α : Type} (req : WebhookRequest)
    (f : Except Error WebhookResponse → SlackCtl α) : post req >>= f = .call (.inr req) f := rfl

namespace Slack

def ErrWebhookNotEnabled : Error := .new "webhook not enabled"

def isWebhookConfigured : SlackCtl Bool := do
  let checkURL ← (getenv "SLACK_WEBHOOK_URL").inl
  return checkURL ≠ "" && Go.Url.parseRequestURI checkURL

/-- The request for a message. -/
def webhookRequest (webhookURL : String) (msg : List WebhookMessageAttachment) : WebhookRequest where
  method := "POST"
  url := webhookURL
  contentType := "application/json"
  body := webhookJson msg

/-- What `makePOSTRequest` returns for a response. -/
def webhookResult : Except Error WebhookResponse → Except Error Unit
  | .error e => .error e
  | .ok slackResponse =>
    match slackResponse.body with
    | .error e => .error e
    | .ok respBody =>
      if slackResponse.statusCode ≠ 200 then
        .error (.new ("got return code " ++ toString slackResponse.statusCode ++
          " (expected 200) - response body: " ++ respBody ++ "\n"))
      else .ok ()

def makePOSTRequest (msg : List WebhookMessageAttachment) : SlackCtl (Except Error Unit) := do
  let webhookURL ← (getenv "SLACK_WEBHOOK_URL").inl
  return webhookResult (← post (webhookRequest webhookURL msg))

def SendWebhookAttachment (attachment : WebhookMessageAttachment) :
    SlackCtl (Except Error Unit) := do
  if !(← isWebhookConfigured) then return .error ErrWebhookNotEnabled
  else makePOSTRequest [attachment]

end Slack

/-- The operations of a controller, with notifications sent by the client. -/
def sendThrough : Handler Api SlackApi
  | .slack msg => Slack.SendWebhookAttachment msg
  | op => .call (.inl op) .ret

end Automium
