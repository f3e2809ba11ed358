import StackMachine.CommandLine.Surroundings

/-!
Whether a session colours its log.
-/

set_option autoImplicit false

namespace StackMachine.CommandLine

def serviceSettings : List String :=
  ["CI_NAME", "GITHUB_ACTION", "GITLAB_CI", "NETLIFY", "TRAVIS", "CODEBUILD_SRC_DIR", "BUILDER_OUTPUT",
    "GITLAB_DEPLOYMENT", "NOW_GITHUB_DEPLOYMENT", "NOW_BUILDER", "BITBUCKET_DEPLOYMENT", "GERRIT_PROJECT",
    "SYSTEM_TEAMFOUNDATIONCOLLECTIONURI", "BITRISE_IO", "BUDDY_WORKSPACE_ID", "BUILDKITE", "CIRRUS_CI",
    "APPVEYOR", "CIRCLECI", "SEMAPHORE", "DRONE", "DSARI", "TDDIUM", "STRIDER", "TASKCLUSTER_ROOT_URL",
    "JENKINS_URL", "bamboo.buildKey", "GO_PIPELINE_NAME", "HUDSON_URL", "WERCKER", "MAGNUM", "NEVERCODE",
    "RENDER", "SAIL_CI", "SHIPPABLE"]

def inService (s : Surroundings) : Bool :=
  (s.setting? "CI").any (["true", "1", "woodpecker"].contains ·) ||
    serviceSettings.any fun key => (s.setting? key).isSome

/-- Whether the log is taken to be a terminal with colours, although it never is a terminal. Any terminal that
has a name has them, but for dumb ones. -/
def seemsColoured (s : Surroundings) : Bool :=
  let terminal := s.setting? "TERM"
  s.isOn "IGNORE_IS_TERMINAL" && terminal ≠ some "dumb" &&
    (terminal.isSome || (s.setting? "COLORTERM").isSome || s.isOn "CLICOLOR" || inService s ||
      (s.setting? "TERM_PROGRAM").any (["iTerm.app", "Apple_Terminal"].contains ·))

def wantsColours (s : Surroundings) : Bool :=
  (s.setting? "NO_COLOR").isNone &&
    ((s.setting? "FORCE_COLOR").isSome || s.isOn "CLICOLOR_FORCE" || seemsColoured s)

end StackMachine.CommandLine
