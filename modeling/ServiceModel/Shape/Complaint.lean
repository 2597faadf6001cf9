import ServiceModel.Issue.Finding

/-!
# Complaints

A complaint is a finding about the form of a node. Complaints are handed up from node to node, each
time with the token that leads down to the node they come from. Null stands for no token, so the
null key of a mapping is not named in the path of what is held under it.
-/
namespace ServiceModel

/-- A finding about the node at `node`, reported at the token below it if there is one. -/
structure Complaint where
  node : Path
  token : List Value
  finding : Finding

namespace Complaint

def issue (c : Complaint) : Issue := c.finding.issueAt (c.node ++ c.token)

def under (token : Value) (c : Complaint) : Complaint := { c with node := token :: c.node }

theorem issue_under (token : Value) (c : Complaint) :
    (c.under token).issue = c.issue.under [token] := rfl

end Complaint

end ServiceModel
