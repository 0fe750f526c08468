import ClawEngine.Laws.SecretAnswers

/-!
# The urls of secrets

The constructor looks at the query and the fragment of the endpoint, and so lets one pass that has
begun either without a character in it; the path of the secret then goes there. The port is not
looked at before an error is told.
-/

set_option autoImplicit false

namespace ClawEngine.Secrets

open ClawEngine.Core ClawEngine.Context

/-! ## The path that is joined -/

section Path

variable {mount workspaceId : String}

end Path

/-! ## What the constructor leaves -/

section Constructor

variable {urls : Url.UrlLib} {lib : SecretsLib} {given p : OpenBaoSecretProvider}
  {workspaceId : String}

end Constructor

end ClawEngine.Secrets
